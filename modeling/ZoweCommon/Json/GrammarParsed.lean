import ZoweCommon.Json.Grammar
import ZoweCommon.Json.ParserNumbers
import ZoweCommon.Json.RoundTrip

/-! The parser reads the texts of JSON, up to the first number that is no `int`. -/
namespace ZoweCommon

open CLibrary CString JsonTokenizer

/-! Numerals -/

namespace JsonTokenizer

variable {t : JsonTokenizer} {rest : List Byte}

theorem bufferSize_jsonTokenizerRead (t : JsonTokenizer) :
    t.jsonTokenizerRead.2.bufferSize = t.bufferSize := by
  unfold jsonTokenizerRead charStreamGet
  split_ifs
  · rfl
  · cases t.input with
    | nil =>
      dsimp only
      split_ifs <;> rfl
    | cons b input =>
      dsimp only
      split_ifs <;> rfl

theorem bufferSize_jsonTokenizerLookahead (t : JsonTokenizer) :
    t.jsonTokenizerLookahead.2.bufferSize = t.bufferSize := by
  unfold jsonTokenizerLookahead
  split_ifs
  · rfl
  · exact bufferSize_jsonTokenizerRead t

theorem le_bufferSize (t : JsonTokenizer) : JSON_TOKEN_BUFFER_SIZE ≤ t.bufferSize := by
  obtain ⟨k, -, hsize⟩ := t.bufferSize_eq
  rw [hsize]
  exact Nat.le_mul_of_pos_right _ (Nat.two_pow_pos k)

/-- What does not fit in the buffer is passed over. -/
theorem At.readWhile_take {class_ : ℤ → Bool} {word : List Byte}
    (hword : ∀ c ∈ word, class_ c.toInt = true) (hrest : class_ (peek rest) = false) :
    ∀ (fuel : ℕ) (buffer : List Byte) {t : JsonTokenizer}, t.At (word ++ rest) →
    buffer.length ≤ t.bufferSize → word.length < fuel →
    ∃ t', JsonTokenizer.readWhile class_ fuel t buffer = .ok ((buffer ++ word).take t.bufferSize, t') ∧
      t'.At rest := by
  induction word with
  | nil =>
    intro fuel buffer t h hroom hfuel
    obtain ⟨fuel, rfl⟩ : ∃ n, fuel = n + 1 := Nat.exists_eq_succ_of_ne_zero (by omega)
    obtain ⟨t', hrun, h'⟩ := h.jsonTokenizerLookahead
    refine ⟨t', ?_, h'⟩
    unfold JsonTokenizer.readWhile
    rw [hrun, List.nil_append, List.append_nil, List.take_of_length_le hroom]
    dsimp only
    rw [if_neg (by rw [hrest]; exact Bool.false_ne_true)]
    rfl
  | cons c word ih =>
    intro fuel buffer t h hroom hfuel
    rw [List.length_cons] at hfuel
    obtain ⟨fuel, rfl⟩ : ∃ n, fuel = n + 1 := Nat.exists_eq_succ_of_ne_zero (by omega)
    obtain ⟨t₁, hrun₁, h₁⟩ := h.jsonTokenizerLookahead
    obtain ⟨t₂, hrun₂, h₂⟩ := h₁.jsonTokenizerRead
    have hsize : t₂.bufferSize = t.bufferSize := by
      have hsize₁ := bufferSize_jsonTokenizerLookahead t
      have hsize₂ := bufferSize_jsonTokenizerRead t₁
      rw [hrun₁] at hsize₁
      rw [hrun₂] at hsize₂
      exact hsize₂.trans hsize₁
    have hadd : (t₂.addTokenChar buffer c.toInt).length ≤ t₂.bufferSize ∧
        (t₂.addTokenChar buffer c.toInt ++ word).take t₂.bufferSize =
          (buffer ++ c :: word).take t₂.bufferSize := by
      unfold addTokenChar
      rw [toByte_toInt]
      split_ifs with hfits
      · rw [List.length_append, List.append_assoc]
        exact ⟨hfits, rfl⟩
      · have hfull : t₂.bufferSize = buffer.length := by omega
        rw [hfull, List.take_left, List.take_left]
        exact ⟨le_rfl, rfl⟩
    obtain ⟨t', hrun', h'⟩ := ih (fun c hc => hword c (List.mem_cons_of_mem _ hc)) fuel _ h₂ hadd.1
      (by omega)
    refine ⟨t', ?_, h'⟩
    have hpeek : peek (c :: word ++ rest) = c.toInt := rfl
    unfold JsonTokenizer.readWhile
    rw [hrun₁, hpeek]
    dsimp only
    rw [if_pos (hword c List.mem_cons_self), hrun₂, hpeek]
    dsimp only
    rw [hrun', hadd.2, hsize]

theorem bufferSize_readSign (t : JsonTokenizer) : t.readSign.2.bufferSize = t.bufferSize := by
  have hlook := bufferSize_jsonTokenizerLookahead t
  unfold readSign
  dsimp only
  split_ifs
  · exact (bufferSize_jsonTokenizerRead _).trans hlook
  · exact hlook

theorem peek_literal {ds : List ℕ} (hne : ds ≠ []) (hds : ∀ d ∈ ds, d < 10) (rest : List Byte) :
    ∃ d < 10, ∃ es, (∀ e ∈ es, e < 10) ∧ ds = d :: es ∧
      peek (ds.map digitChar ++ rest) = (digitChar d).toInt := by
  obtain ⟨d, es, rfl⟩ := List.exists_cons_of_ne_nil hne
  exact ⟨d, hds d List.mem_cons_self, es, fun e he => hds e (List.mem_cons_of_mem _ he), rfl, rfl⟩

theorem At.readLiteral {negative : Bool} {ds : List ℕ} {fuel : ℕ} (hne : ds ≠ [])
    (hds : ∀ d ∈ ds, d < 10) (h : t.At (signedDigits negative ds ++ rest))
    (hrest : isdigit (peek rest) = false) (hfuel : ds.length < fuel) :
    isdigit t.readSign.2.jsonTokenizerLookahead.1 = true ∧
      ∃ t', JsonTokenizer.readWhile isdigit fuel
          t.readSign.2.jsonTokenizerLookahead.2.jsonTokenizerRead.2
          (t.readSign.1 ++ [toByte t.readSign.2.jsonTokenizerLookahead.2.jsonTokenizerRead.1]) =
        .ok ((signedDigits negative ds).take t.bufferSize, t') ∧ t'.At rest := by
  obtain ⟨d, hd, es, hes, hcons, hpeek⟩ := peek_literal hne hds rest
  have hsign : ∃ t₁, t.readSign = (if negative then [0x2D] else [], t₁) ∧
      t₁.At (ds.map digitChar ++ rest) := by
    cases negative with
    | true => exact h.readSign_minus
    | false =>
      refine At.readSign_none h ?_
      show peek (ds.map digitChar ++ rest) ≠ 0x2D
      rw [hpeek, toInt_digitChar hd]
      omega
  obtain ⟨t₁, hsign, h₁⟩ := hsign
  obtain ⟨t₂, hrun₂, h₂⟩ := h₁.jsonTokenizerLookahead
  obtain ⟨t₃, hrun₃, h₃⟩ := h₂.jsonTokenizerRead
  have hsize : t₃.bufferSize = t.bufferSize := by
    have hsize₁ := bufferSize_readSign t
    have hsize₂ := bufferSize_jsonTokenizerLookahead t₁
    have hsize₃ := bufferSize_jsonTokenizerRead t₂
    rw [hsign] at hsize₁
    rw [hrun₂] at hsize₂
    rw [hrun₃] at hsize₃
    exact hsize₃.trans (hsize₂.trans hsize₁)
  have hclass : ∀ c ∈ es.map digitChar, isdigit c.toInt = true := by
    intro c hc
    obtain ⟨e, he, rfl⟩ := List.mem_map.mp hc
    exact isdigit_digitChar (hes e he)
  have hroom := le_bufferSize t₃
  unfold JSON_TOKEN_BUFFER_SIZE at hroom
  have hlength : (if negative then [0x2D] else ([] : List Byte)).length ≤ 1 := by
    cases negative <;> decide
  rw [hcons] at h₃ hfuel
  rw [List.length_cons] at hfuel
  obtain ⟨t', hrun', h'⟩ := At.readWhile_take hclass hrest fuel
    ((if negative then [0x2D] else []) ++ [digitChar d]) h₃
    (by rw [List.length_append, List.length_singleton]; omega) (by rw [List.length_map]; omega)
  rw [hsign]
  dsimp only
  rw [hrun₂, hpeek]
  dsimp only
  rw [hrun₃, hpeek, toByte_toInt]
  refine ⟨isdigit_digitChar hd, t', ?_, h'⟩
  dsimp only
  rw [hrun', hsize, hcons, List.append_assoc]
  rfl

theorem At.getNumberTokenV1_literal {negative : Bool} {ds : List ℕ} {fuel : ℕ} (hne : ds ≠ [])
    (hds : ∀ d ∈ ds, d < 10) (h : t.At (signedDigits negative ds ++ rest))
    (hrest : isdigit (peek rest) = false) (hfuel : ds.length < fuel) :
    ∃ t', JsonTokenizer.getNumberTokenV1 fuel t =
      .ok (makeJsonToken .JSON_TOKEN_NUMBER ((signedDigits negative ds).take t.bufferSize), t') ∧
      t'.At rest := by
  obtain ⟨hdigit, t', hrun, h'⟩ := h.readLiteral hne hds hrest hfuel
  refine ⟨t', ?_, h'⟩
  unfold JsonTokenizer.getNumberTokenV1
  dsimp only
  rw [if_pos hdigit, hrun]
  rfl

/-- What a numeral keeps of its digits. -/
theorem take_literal {negative : Bool} {ds : List ℕ} {k : ℕ} (hk : 1 ≤ k) :
    (signedDigits negative ds).take k = signedDigits negative (ds.take (k - if negative then 1 else 0)) := by
  have hsign : (if negative then [0x2D] else ([] : List Byte)).length =
      if negative then 1 else 0 := by
    cases negative <;> rfl
  have hle : (if negative then 1 else 0) ≤ k := by
    cases negative
    · exact Nat.zero_le k
    · exact hk
  unfold signedDigits
  rw [List.take_append, ← List.map_take, List.take_of_length_le (hsign.trans_le hle), hsign]

end JsonTokenizer

namespace JsonParser

variable {rest : List Byte}

/-- A number as it is read, which is no `int` in some cases. -/
structure IsNumber (negative : Bool) (n : ℕ) (token : JsonToken) : Prop where
  type_eq : token.type = .JSON_TOKEN_NUMBER
  atoi_eq : atoi token.text =
    if -2 ^ 31 ≤ numeralValue negative n ∧ numeralValue negative n < 2 ^ 31 then
      .ok (BitVec.ofInt 32 (numeralValue negative n))
    else .error .undefinedBehaviour

theorem noNul_literal {negative : Bool} {ds : List ℕ} (hds : ∀ d ∈ ds, d < 10) :
    NoNul (signedDigits negative ds) := by
  apply NoNul.append
  · cases negative
    · exact NoNul.nil
    · intro c hc
      rw [List.mem_singleton.mp hc]
      decide
  · intro c hc
    obtain ⟨d, hd, rfl⟩ := List.mem_map.mp hc
    exact digitChar_ne (hds d hd) (by decide)

theorem isNumber_take {negative : Bool} {n k : ℕ} (hk : 12 ≤ k) :
    IsNumber negative n (makeJsonToken .JSON_TOKEN_NUMBER ((numeral negative n).take k)) where
  type_eq := rfl
  atoi_eq := by
    have hsign : (if negative then 1 else 0) ≤ 1 := by cases negative <;> decide
    apply atoi_take_numeral (show 11 ≤ k - (if negative then 1 else 0) by omega)
    have htake : (numeral negative n).take k = _ := take_literal (by omega)
    show (ofBytes ((numeral negative n).take k)).bytes = _
    rw [htake, ofBytes_of_noNul (noNul_literal fun d hd => Decimal.digits_lt (List.mem_of_mem_take hd))]
    rfl

theorem peek_literal_class (negative : Bool) {ds : List ℕ} (hne : ds ≠ [])
    (hds : ∀ d ∈ ds, d < 10) (rest : List Byte) :
    peek (signedDigits negative ds ++ rest) ≠ 0x22 ∧
      (isdigit (peek (signedDigits negative ds ++ rest)) ||
        decide (peek (signedDigits negative ds ++ rest) = 0x2D)) = true ∧
      isspace (peek (signedDigits negative ds ++ rest)) = false := by
  cases negative with
  | true =>
    have hpeek : peek (signedDigits true ds ++ rest) = 0x2D := rfl
    rw [hpeek]
    decide
  | false =>
    obtain ⟨d, hd, -, -, -, hpeek⟩ := peek_literal hne hds rest
    have hpeek' : peek (signedDigits false ds ++ rest) = (digitChar d).toInt := hpeek
    rw [hpeek', isdigit_digitChar hd]
    refine ⟨?_, rfl, not_isspace_digitChar hd⟩
    rw [toInt_digitChar hd]
    omega

theorem jsonLookaheadToken_numeral (negative : Bool) (n : ℕ) (hrest : isdigit (peek rest) = false) :
    ∀ ⦃space : List Byte⦄ ⦃p : JsonParser⦄ ⦃fuel : ℕ⦄, IsSpace space →
      p.Fresh (space ++ (numeral negative n ++ rest)) →
      space.length + (numeral negative n ++ rest).length + 1 < fuel →
      ∃ token p', IsNumber negative n token ∧ p.jsonLookaheadToken fuel = .ok (token, p') ∧
        ∀ m, Ready m p' token rest := by
  intro space p fuel hspace h hfuel
  have hds : ∀ d ∈ Decimal.digits n, d < 10 := fun d hd => Decimal.digits_lt hd
  obtain ⟨hquote, hclass, hnoSpace⟩ :=
    peek_literal_class negative (Decimal.digits_ne_nil n) hds rest
  rw [List.length_append] at hfuel
  obtain ⟨fuel, rfl⟩ : ∃ m, fuel = m + 1 := Nat.exists_eq_succ_of_ne_zero (by omega)
  obtain ⟨tokenizer, unreadToken, jsonError, version⟩ := p
  obtain ⟨hunread, hversion, hat⟩ := h
  dsimp only at hunread hversion hat
  subst hunread
  obtain ⟨t₁, hrun₁, h₁⟩ := At.jsonTokenizerSkipWhitespace hspace hnoSpace fuel hat (by omega)
  obtain ⟨t₂, hrun₂, h₂⟩ := h₁.jsonTokenizerLookahead
  have h₃ : At { t₂ with
      lastTokenLineNumber := t₂.lineNumber
      lastTokenColumnNumber := t₂.columnNumber } (numeral negative n ++ rest) := ⟨h₂.noNul, h₂.input⟩
  have hlength : (Decimal.digits n).length ≤ (numeral negative n).length := by
    unfold numeral
    rw [List.length_append, List.length_map]
    omega
  obtain ⟨t', hrun', h'⟩ := At.getNumberTokenV1_literal (Decimal.digits_ne_nil n) hds h₃ hrest
    (show _ < fuel by omega)
  have hnumber : IsNumber negative n _ := isNumber_take (show 12 ≤ t₂.bufferSize by
    have hroom := le_bufferSize t₂
    unfold JSON_TOKEN_BUFFER_SIZE at hroom
    omega)
  refine ⟨_, ⟨t', some _, jsonError, version⟩, hnumber, ?_, fun m => .seen rfl hversion h'⟩
  have hv1 : ¬JSON_PARSE_VERSION_2 ≤ version := by
    rw [hversion]
    decide
  unfold jsonLookaheadToken
  dsimp only
  rw [jsonNextToken]
  dsimp only
  rw [hrun₁, Exec.ok_bind, hrun₂]
  dsimp only
  unfold scanToken
  dsimp only
  rw [if_neg hquote, if_pos hclass, if_neg hv1, hrun', Exec.ok_bind, Exec.pure_eq_ok, Exec.ok_bind]
  rfl

/-! Values -/

/-- A run that returns a value, unless a number in it is no `int`. -/
structure Outcome {α : Type} (x : Exec (α × JsonParser)) (fits : Prop) (a : α)
    (after : JsonParser → Prop) : Prop where
  ok : fits → ∃ p', x = .ok (a, p') ∧ after p'
  fault : ¬fits → x = .error .undefinedBehaviour

namespace Outcome

variable {α β : Type} {x : Exec (α × JsonParser)} {fits fits' : Prop} {a : α} {b : β}
  {after after' : JsonParser → Prop}

theorem of_ok {p : JsonParser} (hx : x = .ok (a, p)) (h : after p) : Outcome x True a after :=
  ⟨fun _ => ⟨p, hx, h⟩, fun hnot => absurd trivial hnot⟩

theorem bind {f : α × JsonParser → Exec (β × JsonParser)} (hx : Outcome x fits a after)
    (hf : ∀ p, after p → Outcome (f (a, p)) fits' b after') :
    Outcome (x >>= f) (fits ∧ fits') b after' := by
  constructor
  · rintro ⟨hfits, hfits'⟩
    obtain ⟨p, hrun, hafter⟩ := hx.ok hfits
    rw [hrun]
    exact (hf p hafter).ok hfits'
  · intro hnot
    by_cases hfits : fits
    · obtain ⟨p, hrun, hafter⟩ := hx.ok hfits
      rw [hrun]
      exact (hf p hafter).fault fun hfits' => hnot ⟨hfits, hfits'⟩
    · rw [hx.fault hfits]
      rfl

theorem and_true (hx : Outcome x (fits ∧ True) a after) : Outcome x fits a after :=
  ⟨fun hfits => hx.ok ⟨hfits, trivial⟩, fun hnot => hx.fault fun h => hnot h.1⟩

theorem congr (hx : Outcome x fits a after) (h : fits' ↔ fits) : Outcome x fits' a after :=
  ⟨fun hfits => hx.ok (h.mp hfits), fun hnot => hx.fault (mt h.mpr hnot)⟩

end Outcome

theorem jsonLookaheadToken_of_unread {p : JsonParser} {token : JsonToken}
    (h : p.unreadToken = some token) (fuel : ℕ) : p.jsonLookaheadToken fuel = .ok (token, p) := by
  unfold jsonLookaheadToken
  rw [h]
  rfl

/-- Looking at the first token does not change what is parsed. -/
theorem jsonParse_of_lookahead {p p' : JsonParser} {fuel : ℕ} {token : JsonToken}
    (h : p.jsonLookaheadToken fuel = .ok (token, p')) :
    jsonParse (fuel + 1) p = jsonParse (fuel + 1) p' := by
  rw [jsonParse, jsonParse, h, jsonLookaheadToken_of_unread (unreadToken_of_lookahead h)]

/-- How a text of a value is read behind white space, when something follows that ends it. -/
def Parsed (text : List Byte) (value : JsonValue) : Prop :=
  ∀ ⦃rest : List Byte⦄, Ends rest → ∀ ⦃space : List Byte⦄ ⦃p : JsonParser⦄ ⦃fuel : ℕ⦄,
    IsSpace space → p.Fresh (space ++ (text ++ rest)) →
    space.length + (text ++ rest).length + 1 < fuel →
    ∃ token p', p.jsonLookaheadToken fuel = .ok (token, p') ∧
      token.type ≠ .JSON_TOKEN_ARRAY_END ∧
      ∀ ⦃fuel' : ℕ⦄, 4 * (text ++ rest).length + 6 ≤ fuel' →
        Outcome (jsonParse fuel' p') value.FitsInt (some value.toJson) (·.Fresh rest)

theorem Parsed.jsonParse {text : List Byte} {value : JsonValue} (h : Parsed text value)
    (hends : Ends rest) {space : List Byte} {p : JsonParser} {fuel : ℕ} (hspace : IsSpace space)
    (hfresh : p.Fresh (space ++ (text ++ rest)))
    (hfuel : 4 * (space ++ (text ++ rest)).length + 6 ≤ fuel) :
    Outcome (JsonParser.jsonParse fuel p) value.FitsInt (some value.toJson) (·.Fresh rest) := by
  rw [List.length_append] at hfuel
  obtain ⟨fuel, rfl⟩ : ∃ m, fuel = m + 1 := Nat.exists_eq_succ_of_ne_zero (by omega)
  obtain ⟨token, p', hrun, -, hparse⟩ := h hends hspace hfresh (show _ < fuel by omega)
  rw [jsonParse_of_lookahead hrun]
  exact hparse (by omega)

theorem jsonGetScalar_eq {n fuel : ℕ} {p : JsonParser} {token : JsonToken} {type : JsonTokenType}
    (h : Ready n p token rest) (hfuel : n + 1 < fuel) (htype : token.type = type)
    (hmatched : type ≠ .JSON_TOKEN_UNMATCHED) (scalar : CString → Exec JsonScalar) :
    ∃ p', p.jsonGetScalar fuel type scalar =
      (do return (some (.scalar (← scalar token.text)), p')) ∧ p'.Fresh rest := by
  obtain ⟨p', hrun, h'⟩ := h.jsonMatchToken hfuel htype
  refine ⟨p', ?_, h'⟩
  have hunmatched : jsonIsTokenUnmatched token = false := by
    unfold jsonIsTokenUnmatched
    exact decide_eq_false (by rwa [htype])
  unfold jsonGetScalar
  rw [hrun, Exec.ok_bind]
  dsimp only
  rw [if_neg (by rw [hunmatched]; exact Bool.false_ne_true)]

theorem parsed_number (negative : Bool) (n : ℕ) :
    Parsed (numeral negative n) (.number (numeralValue negative n)) := by
  intro rest hends space p fuel hspace hfresh hfuel
  obtain ⟨token, p', hnumber, hrun, hready⟩ :=
    jsonLookaheadToken_numeral negative n hends.1 hspace hfresh hfuel
  refine ⟨token, p', hrun, by rw [hnumber.type_eq]; decide, fun fuel' hfuel' => ?_⟩
  obtain ⟨fuel', rfl⟩ : ∃ m, fuel' = m + 1 := Nat.exists_eq_succ_of_ne_zero (by omega)
  obtain ⟨p'', hrun', h'⟩ := jsonGetScalar_eq (hready 0) (show 0 + 1 < fuel' by omega)
    hnumber.type_eq (by decide) fun text => do return .number (← atoi text)
  rw [JsonParser.jsonParse, jsonLookaheadToken_of_unread (unreadToken_of_lookahead hrun), Exec.ok_bind]
  dsimp only
  rw [hnumber.type_eq]
  dsimp only
  unfold jsonGetNumber
  rw [hrun', hnumber.atoi_eq]
  constructor
  · intro hfits
    rw [if_pos (JsonValue.fitsInt_number.mp hfits)]
    exact ⟨p'', rfl, h'⟩
  · intro hfits
    rw [if_neg (mt JsonValue.fitsInt_number.mpr hfits)]
    rfl

theorem parsed_scalar (type : JsonTokenType) (scalar : CString → Exec JsonScalar) {word : List Byte}
    {value : JsonValue} {token : JsonToken} {s : JsonScalar}
    (hscans : ∀ rest, Ends rest → Scans rest word token) (htype : token.type = type)
    (hmatched : type ≠ .JSON_TOKEN_UNMATCHED) (hbracket : type ≠ .JSON_TOKEN_ARRAY_END)
    (hscalar : scalar token.text = .ok s) (hvalue : value.toJson = .scalar s) (hfits : value.FitsInt)
    (hparse : ∀ (fuel : ℕ) (p p₁ : JsonParser), p.jsonLookaheadToken fuel = .ok (token, p₁) →
      JsonParser.jsonParse (fuel + 1) p = p₁.jsonGetScalar fuel type scalar) :
    Parsed word value := by
  intro rest hends space p fuel hspace hfresh hfuel
  rw [List.length_append] at hfuel
  have hready := Ready.unseen hfresh hspace (hscans rest hends) le_rfl
  obtain ⟨p', hrun, hready'⟩ := hready.jsonLookaheadToken (show _ < fuel by omega)
  refine ⟨token, p', hrun, by rwa [htype], fun fuel' hfuel' => ?_⟩
  obtain ⟨fuel', rfl⟩ : ∃ m, fuel' = m + 1 := Nat.exists_eq_succ_of_ne_zero (by omega)
  obtain ⟨p'', hrun', h'⟩ := jsonGetScalar_eq (hready' 0) (show 0 + 1 < fuel' by omega) htype
    hmatched scalar
  rw [hparse fuel' p' p' (jsonLookaheadToken_of_unread (unreadToken_of_lookahead hrun) fuel'), hrun',
    hscalar, hvalue]
  exact (Outcome.of_ok rfl h').congr (iff_true_intro hfits)

theorem parsed_string {body s : List Byte} (h : Decodes body s) (hroom : s.length ≤ MAX_TOKEN) :
    Parsed (0x22 :: body ++ [0x22]) (.string (ofBytes s)) := by
  apply parsed_scalar .JSON_TOKEN_STRING (fun text => return .string text)
    (fun _ _ => .string h hroom) rfl (by decide) (by decide) rfl rfl (.string _)
  intro fuel p p₁ hrun
  rw [JsonParser.jsonParse, hrun]
  rfl

theorem parsed_boolean (b : Bool) :
    Parsed (if b then ascii "true" else ascii "false") (.boolean b) := by
  apply parsed_scalar .JSON_TOKEN_BOOLEAN (fun text => return .boolean (text.bytes = ascii "true"))
    (fun _ hends => .boolean b hends.2) rfl (by decide) (by decide)
    (show _ = Except.ok (JsonScalar.boolean b) by cases b <;> rfl) rfl (.boolean b)
  intro fuel p p₁ hrun
  rw [JsonParser.jsonParse, hrun]
  rfl

theorem parsed_null : Parsed (ascii "null") .null := by
  apply parsed_scalar .JSON_TOKEN_NULL (fun _ => return .null) (fun _ hends => .null hends.2) rfl
    (by decide) (by decide) rfl rfl .null
  intro fuel p p₁ hrun
  rw [JsonParser.jsonParse, hrun]
  rfl

theorem ends_space {space : List Byte} (hspace : IsSpace space) (h : Ends rest) :
    Ends (space ++ rest) := by
  cases space with
  | nil => exact h
  | cons c space =>
    have hc := hspace c List.mem_cons_self
    unfold isspace at hc
    simp only [Bool.or_eq_true, Bool.and_eq_true, decide_eq_true_eq] at hc
    constructor
    · show isdigit c.toInt = false
      unfold isdigit
      simp only [Bool.and_eq_false_iff, decide_eq_false_iff_not]
      omega
    · show isalpha c.toInt = false
      unfold isalpha
      simp only [Bool.or_eq_false_iff, Bool.and_eq_false_iff, decide_eq_false_iff_not]
      omega

theorem afterValue {α : Type} {space : List Byte} {p : JsonParser} {fuel : ℕ} {c : Byte}
    {type : JsonTokenType} (hspace : IsSpace space) (hfresh : p.Fresh (space ++ c :: rest))
    (hc : c ∈ ([0x7B, 0x7D, 0x5B, 0x5D, 0x3A, 0x2C] : List Byte))
    (htoken : punctuation c.toInt = some (bracket type)) (hfuel : space.length + 2 < fuel)
    (next : JsonParser → Exec (α × JsonParser)) (done : JsonParser → Exec (α × JsonParser)) :
    ∃ p', (do
      let (lookahead, p) ← p.jsonLookaheadToken fuel
      if lookahead.type = .JSON_TOKEN_COMMA then
        let (_, p) ← p.jsonMatchToken fuel .JSON_TOKEN_COMMA
        next p
      else done p) = (if type = .JSON_TOKEN_COMMA then next p' else done p') ∧
      if type = .JSON_TOKEN_COMMA then p'.Fresh rest else Ready 0 p' (bracket type) rest := by
  have hpunctuation : p.Fresh (space ++ ([c] ++ rest)) := hfresh
  have hready := hpunctuation.ready hspace hc htoken
  obtain ⟨p₁, hrun₁, hready₁⟩ := hready.jsonLookaheadToken (show _ + 1 < fuel by omega)
  by_cases hcomma : type = .JSON_TOKEN_COMMA
  · obtain ⟨p₂, hrun₂, hfresh₂⟩ := (hready₁ 0).jsonMatchToken (show 0 + 1 < fuel by omega)
      ((bracket_type type).trans hcomma)
    refine ⟨p₂, ?_, ?_⟩
    · rw [hrun₁, Exec.ok_bind, if_pos hcomma]
      dsimp only
      rw [bracket_type, if_pos hcomma, hrun₂, Exec.ok_bind]
    · rw [if_pos hcomma]
      exact hfresh₂
  · refine ⟨p₁, ?_, ?_⟩
    · rw [hrun₁, Exec.ok_bind, if_neg hcomma]
      dsimp only
      rw [bracket_type, if_neg hcomma]
    · rw [if_neg hcomma]
      exact hready₁ 0

/-! Arrays -/

def ElementsParsed (text : List Byte) (elements : List JsonValue) : Prop :=
  ∀ ⦃rest : List Byte⦄ ⦃p : JsonParser⦄ ⦃fuel : ℕ⦄ (done : List Json),
    p.Fresh (text ++ 0x5D :: rest) → 4 * (text ++ 0x5D :: rest).length + 8 ≤ fuel →
    Outcome (jsonGetElements fuel p done) (∀ v ∈ elements, v.FitsInt)
      (some (done ++ JsonValue.toElements elements))
      (fun p' => Ready 0 p' (bracket .JSON_TOKEN_ARRAY_END) rest)

theorem elementsParsed_nil {space : List Byte} (hspace : IsSpace space) :
    ElementsParsed space [] := by
  intro rest p fuel done hfresh hfuel
  rw [List.length_append] at hfuel
  obtain ⟨fuel, rfl⟩ : ∃ m, fuel = m + 1 := Nat.exists_eq_succ_of_ne_zero (by omega)
  have hbracket : p.Fresh (space ++ ([0x5D] ++ rest)) := hfresh
  have hready := hbracket.ready hspace (by decide)
    (rfl : _ = some (bracket .JSON_TOKEN_ARRAY_END))
  obtain ⟨p', hrun, h'⟩ := hready.jsonLookaheadToken (show _ < fuel by omega)
  refine (Outcome.of_ok ?_ (h' 0)).congr (iff_true_intro (List.forall_mem_nil _))
  rw [jsonGetElements, hrun, Exec.ok_bind, JsonValue.toElements, List.append_nil]
  rfl

section value

variable {before text after : List Byte} {value : JsonValue} (hbefore : IsSpace before)
  (h : Parsed text value) (hafter : IsSpace after)
include hbefore h hafter

/-- The value that comes next is read, and the loop looks for a comma. -/
theorem jsonGetElements_value {c : Byte} {type : JsonTokenType} {p : JsonParser} {fuel : ℕ}
    {fits : Prop} {b : Option (List Json)} {post : JsonParser → Prop} (done : List Json)
    (hfresh : p.Fresh (before ++ (text ++ (after ++ c :: rest))))
    (hc : c ∈ ([0x7B, 0x7D, 0x5B, 0x5D, 0x3A, 0x2C] : List Byte))
    (htoken : punctuation c.toInt = some (bracket type))
    (hfuel : 4 * (before ++ (text ++ (after ++ c :: rest))).length + 7 ≤ fuel)
    (hnext : ∀ p', (if type = .JSON_TOKEN_COMMA then p'.Fresh rest
        else Ready 0 p' (bracket type) rest) →
      Outcome (if type = .JSON_TOKEN_COMMA then jsonGetElements fuel p' (done ++ [value.toJson])
        else return (some (done ++ [value.toJson]), p')) fits b post) :
    Outcome (jsonGetElements (fuel + 1) p done) (value.FitsInt ∧ fits) b post := by
  have hends : Ends (after ++ c :: rest) := by
    obtain ⟨-, hdigit, halpha, -⟩ := punctuation_class hc
    exact ends_space hafter ⟨(Bool.or_eq_false_iff.mp hdigit).1, halpha⟩
  rw [List.length_append] at hfuel
  obtain ⟨token, p₁, hrun₁, hbracket, hparse⟩ := h hends hbefore hfresh (show _ < fuel by omega)
  rw [jsonGetElements, hrun₁, Exec.ok_bind]
  dsimp only
  rw [if_pos hbracket]
  refine Outcome.bind (hparse (by omega)) fun p₂ hfresh₂ => ?_
  rw [List.length_append, List.length_append] at hfuel
  obtain ⟨p₃, hrun₃, hafter₃⟩ := afterValue hafter hfresh₂ hc htoken (show _ < fuel by omega)
    (fun p => jsonGetElements fuel p (done ++ [value.toJson]))
    (fun p => return (some (done ++ [value.toJson]), p))
  dsimp only
  rw [hrun₃]
  exact hnext p₃ hafter₃

theorem elementsParsed_single : ElementsParsed (before ++ (text ++ after)) [value] := by
  intro rest p fuel done hfresh hfuel
  rw [List.append_assoc, List.append_assoc] at hfresh hfuel
  obtain ⟨fuel, rfl⟩ : ∃ m, fuel = m + 1 := Nat.exists_eq_succ_of_ne_zero (by omega)
  rw [List.forall_mem_singleton]
  apply Outcome.and_true
  apply jsonGetElements_value hbefore h hafter done hfresh (by decide)
    (rfl : _ = some (bracket .JSON_TOKEN_ARRAY_END)) (by omega)
  intro p' hp'
  rw [if_neg (by decide)] at hp' ⊢
  exact Outcome.of_ok rfl hp'

theorem elementsParsed_cons {more : List Byte} {elements : List JsonValue}
    (hmore : ElementsParsed more elements) :
    ElementsParsed (before ++ (text ++ (after ++ 0x2C :: more))) (value :: elements) := by
  intro rest p fuel done hfresh hfuel
  rw [List.append_assoc, List.append_assoc, List.append_assoc, List.cons_append] at hfresh hfuel
  obtain ⟨fuel, rfl⟩ : ∃ m, fuel = m + 1 := Nat.exists_eq_succ_of_ne_zero (by omega)
  rw [List.forall_mem_cons]
  apply jsonGetElements_value hbefore h hafter done hfresh (by decide)
    (rfl : _ = some (bracket .JSON_TOKEN_COMMA)) (by omega)
  intro p' hp'
  rw [if_pos rfl] at hp' ⊢
  have hrest := hmore (done ++ [value.toJson]) hp' (show _ ≤ fuel by
    simp only [List.length_append, List.length_cons] at hfuel ⊢
    omega)
  rw [List.append_assoc, List.singleton_append] at hrest
  exact hrest

end value

theorem parsed_brackets {α : Type} (start stop : JsonTokenType) {inside : α} (json : α → Json)
    (get : ℕ → JsonParser → Exec (Option α × JsonParser)) {text : List Byte} {value : JsonValue}
    {c d : Byte} {fits : Prop}
    (hc : c ∈ ([0x7B, 0x7D, 0x5B, 0x5D, 0x3A, 0x2C] : List Byte))
    (hstart : punctuation c.toInt = some (bracket start)) (hne : start ≠ .JSON_TOKEN_ARRAY_END)
    (hstartMatched : start ≠ .JSON_TOKEN_UNMATCHED) (hstopMatched : stop ≠ .JSON_TOKEN_UNMATCHED)
    (hvalue : value.toJson = json inside) (hfits : value.FitsInt ↔ fits)
    (hparse : ∀ (fuel : ℕ) (p p₁ : JsonParser),
      p.jsonLookaheadToken (fuel + 1) = .ok (bracket start, p₁) →
      JsonParser.jsonParse (fuel + 2) p = (do
        let (token, p) ← p₁.jsonMatchToken fuel start
        if jsonIsTokenUnmatched token then return (none, p)
        match ← get fuel p with
        | (none, p) => return (none, p)
        | (some inside, p) =>
          let (token, p) ← p.jsonMatchToken fuel stop
          if jsonIsTokenUnmatched token then return (none, p)
          return (some (json inside), p)))
    (hget : ∀ ⦃rest : List Byte⦄ ⦃p : JsonParser⦄ ⦃fuel : ℕ⦄, p.Fresh (text ++ d :: rest) →
      4 * (text ++ d :: rest).length + 8 ≤ fuel →
      Outcome (get fuel p) fits (some inside) (fun p' => Ready 0 p' (bracket stop) rest)) :
    Parsed (c :: text ++ [d]) value := by
  intro rest hends space p fuel hspace hfresh hfuel
  have htext : c :: text ++ [d] ++ rest = [c] ++ (text ++ d :: rest) := by
    simp only [List.append_assoc, List.cons_append, List.nil_append]
  rw [htext] at hfresh hfuel ⊢
  rw [List.length_append, List.length_singleton] at hfuel ⊢
  have hready := Fresh.ready hfresh hspace hc hstart
  obtain ⟨p₁, hrun₁, hready₁⟩ := hready.jsonLookaheadToken (show _ < fuel by omega)
  refine ⟨_, p₁, hrun₁, hne, fun fuel' hfuel' => ?_⟩
  obtain ⟨fuel', rfl⟩ : ∃ m, fuel' = m + 2 := ⟨fuel' - 2, by omega⟩
  have hmatched {type : JsonTokenType} (htype : type ≠ .JSON_TOKEN_UNMATCHED) :
      ¬jsonIsTokenUnmatched (bracket type) = true := by
    unfold jsonIsTokenUnmatched
    rw [bracket_type]
    simpa using htype
  obtain ⟨p₂, hrun₂, hfresh₂⟩ := (hready₁ 0).jsonMatchToken (show 0 + 1 < fuel' by omega)
    (bracket_type start)
  rw [hparse fuel' p₁ p₁ (jsonLookaheadToken_of_unread (unreadToken_of_lookahead hrun₁) _), hrun₂,
    Exec.ok_bind]
  dsimp only
  rw [if_neg (hmatched hstartMatched)]
  apply Outcome.and_true
  refine Outcome.bind ((hget hfresh₂ (by omega)).congr hfits) fun p₃ hready₃ => ?_
  obtain ⟨p', hrun', h'⟩ := hready₃.jsonMatchToken (show 0 + 1 < fuel' by omega)
    (bracket_type stop)
  dsimp only
  rw [hrun', Exec.ok_bind]
  dsimp only
  rw [if_neg (hmatched hstopMatched), hvalue]
  exact Outcome.of_ok rfl h'

theorem parsed_array {text : List Byte} {elements : List JsonValue}
    (h : ElementsParsed text elements) : Parsed (0x5B :: text ++ [0x5D]) (.array elements) := by
  apply parsed_brackets .JSON_TOKEN_ARRAY_START .JSON_TOKEN_ARRAY_END .array
    (fun fuel p => jsonGetElements fuel p []) (by decide) rfl (by decide) (by decide) (by decide)
    (show _ = Json.array (JsonValue.toElements elements) from rfl) JsonValue.fitsInt_array
  · intro fuel p p₁ hrun
    rw [JsonParser.jsonParse, hrun, Exec.ok_bind]
    show jsonGetArray (fuel + 1) p₁ = _
    rw [jsonGetArray]
    apply bind_congr
    rintro ⟨token, p₂⟩
    dsimp only
    split_ifs
    · rfl
    · apply bind_congr
      rintro ⟨_ | elements, p₃⟩
      · rfl
      · rfl
  · intro rest p fuel hfresh hfuel
    exact h [] hfresh hfuel

/-! Objects -/

/-- How the text between the braces of an object is read. -/
def PropertiesParsed (text : List Byte) (properties : List (CString × JsonValue)) : Prop :=
  ∀ ⦃rest : List Byte⦄ ⦃p : JsonParser⦄ ⦃fuel : ℕ⦄ (done : List (CString × Json)),
    p.Fresh (text ++ 0x7D :: rest) → 4 * (text ++ 0x7D :: rest).length + 8 ≤ fuel →
    Outcome (jsonGetProperties fuel p done) (∀ q ∈ properties, q.2.FitsInt)
      (some (done ++ JsonValue.toProperties properties))
      (fun p' => Ready 0 p' (bracket .JSON_TOKEN_OBJECT_END) rest)

theorem propertiesParsed_nil {space : List Byte} (hspace : IsSpace space) :
    PropertiesParsed space [] := by
  intro rest p fuel done hfresh hfuel
  rw [List.length_append] at hfuel
  obtain ⟨fuel, rfl⟩ : ∃ m, fuel = m + 1 := Nat.exists_eq_succ_of_ne_zero (by omega)
  have hbracket : p.Fresh (space ++ ([0x7D] ++ rest)) := hfresh
  have hready := hbracket.ready hspace (by decide)
    (rfl : _ = some (bracket .JSON_TOKEN_OBJECT_END))
  obtain ⟨p', hrun, h'⟩ := hready.jsonLookaheadToken (show _ < fuel by omega)
  refine (Outcome.of_ok ?_ (h' 0)).congr (iff_true_intro (List.forall_mem_nil _))
  rw [jsonGetProperties, hrun, Exec.ok_bind, JsonValue.toProperties, List.append_nil]
  rfl

/-- How a property is read, and the loop looks for a comma. -/
def PropertyParsed (text : List Byte) (q : CString × JsonValue) : Prop :=
  ∀ ⦃rest : List Byte⦄ ⦃p : JsonParser⦄ ⦃fuel : ℕ⦄ ⦃c : Byte⦄ ⦃type : JsonTokenType⦄ ⦃fits : Prop⦄
    ⦃b : Option (List (CString × Json))⦄ ⦃post : JsonParser → Prop⦄ (done : List (CString × Json)),
    p.Fresh (text ++ c :: rest) → c ∈ ([0x7B, 0x7D, 0x5B, 0x5D, 0x3A, 0x2C] : List Byte) →
    punctuation c.toInt = some (bracket type) → 4 * (text ++ c :: rest).length + 7 ≤ fuel →
    (∀ p', (if type = .JSON_TOKEN_COMMA then p'.Fresh rest else Ready 0 p' (bracket type) rest) →
      Outcome (if type = .JSON_TOKEN_COMMA then
          jsonGetProperties fuel p' (done ++ [(q.1, q.2.toJson)])
        else return (some (done ++ [(q.1, q.2.toJson)]), p')) fits b post) →
    Outcome (jsonGetProperties (fuel + 1) p done) (q.2.FitsInt ∧ fits) b post

theorem propertyParsed {body key before space between text after : List Byte} {value : JsonValue}
    (hbefore : IsSpace before) (hkey : Decodes body key) (hroom : key.length ≤ MAX_TOKEN)
    (hspace : IsSpace space) (hbetween : IsSpace between) (h : Parsed text value)
    (hafter : IsSpace after) :
    PropertyParsed (before ++ ((0x22 :: body ++ [0x22]) ++
      (space ++ 0x3A :: (between ++ (text ++ after))))) (ofBytes key, value) := by
  intro rest p fuel c type fits b post done hfresh hc htoken hfuel hnext
  have htext : before ++ ((0x22 :: body ++ [0x22]) ++ (space ++ 0x3A :: (between ++ (text ++ after)))) ++
      c :: rest = before ++ ((0x22 :: body ++ [0x22]) ++
        (space ++ ([0x3A] ++ (between ++ (text ++ (after ++ c :: rest)))))) := by
    simp only [List.append_assoc, List.cons_append, List.nil_append]
  rw [htext] at hfresh hfuel
  simp only [List.length_append, List.length_singleton] at hfuel
  have hends : Ends (after ++ c :: rest) := by
    obtain ⟨-, hdigit, halpha, -⟩ := punctuation_class hc
    exact ends_space hafter ⟨(Bool.or_eq_false_iff.mp hdigit).1, halpha⟩
  -- the key and the colon
  have hready := Ready.unseen hfresh hbefore (.string hkey hroom) le_rfl
  obtain ⟨p₁, hrun₁, hready₁⟩ := hready.jsonLookaheadToken (show _ < fuel by
    rw [List.length_append, List.length_singleton]
    omega)
  obtain ⟨p₂, hrun₂, hfresh₂⟩ := (hready₁ 0).jsonMatchToken (show 0 + 1 < fuel by omega)
    (rfl : _ = JsonTokenType.JSON_TOKEN_STRING)
  have hcolon := hfresh₂.ready hspace (by decide) (rfl : _ = some (bracket .JSON_TOKEN_COLON))
  obtain ⟨p₃, hrun₃, hfresh₃⟩ := hcolon.jsonMatchToken (show _ < fuel by omega)
    (rfl : _ = JsonTokenType.JSON_TOKEN_COLON)
  have hparse := h.jsonParse hends hbetween hfresh₃ (show _ ≤ fuel by
    simp only [List.length_append]
    omega)
  rw [jsonGetProperties, hrun₁, Exec.ok_bind]
  dsimp only
  rw [if_pos (makeJsonToken_type _ _), hrun₂, Exec.ok_bind]
  dsimp only
  rw [hrun₃, Exec.ok_bind]
  dsimp only
  rw [if_neg (by decide)]
  refine Outcome.bind hparse fun p₄ hfresh₄ => ?_
  obtain ⟨p₅, hrun₅, hafter₅⟩ := afterValue hafter hfresh₄ hc htoken (show _ < fuel by omega)
    (fun p => jsonGetProperties fuel p (done ++ [(ofBytes key, value.toJson)]))
    (fun p => return (some (done ++ [(ofBytes key, value.toJson)]), p))
  have hname : (makeJsonToken .JSON_TOKEN_STRING key).text = ofBytes key := rfl
  dsimp only
  rw [hname, hrun₅]
  exact hnext p₅ hafter₅

theorem propertiesParsed_single {text : List Byte} {q : CString × JsonValue}
    (h : PropertyParsed text q) : PropertiesParsed text [q] := by
  intro rest p fuel done hfresh hfuel
  obtain ⟨fuel, rfl⟩ : ∃ m, fuel = m + 1 := Nat.exists_eq_succ_of_ne_zero (by omega)
  rw [List.forall_mem_singleton]
  apply Outcome.and_true
  apply h done hfresh (by decide) (rfl : _ = some (bracket .JSON_TOKEN_OBJECT_END)) (by omega)
  intro p' hp'
  rw [if_neg (by decide)] at hp' ⊢
  exact Outcome.of_ok rfl hp'

theorem propertiesParsed_cons {text more : List Byte} {q : CString × JsonValue}
    {properties : List (CString × JsonValue)} (h : PropertyParsed text q)
    (hmore : PropertiesParsed more properties) :
    PropertiesParsed (text ++ 0x2C :: more) (q :: properties) := by
  intro rest p fuel done hfresh hfuel
  rw [List.append_assoc, List.cons_append] at hfresh hfuel
  obtain ⟨fuel, rfl⟩ : ∃ m, fuel = m + 1 := Nat.exists_eq_succ_of_ne_zero (by omega)
  rw [List.forall_mem_cons]
  apply h done hfresh (by decide) (rfl : _ = some (bracket .JSON_TOKEN_COMMA)) (by omega)
  intro p' hp'
  rw [if_pos rfl] at hp' ⊢
  have hrest := hmore (done ++ [(q.1, q.2.toJson)]) hp' (show _ ≤ fuel by
    simp only [List.length_append, List.length_cons] at hfuel ⊢
    omega)
  rw [List.append_assoc, List.singleton_append] at hrest
  exact hrest

theorem parsed_object {text : List Byte} {properties : List (CString × JsonValue)}
    (h : PropertiesParsed text properties) :
    Parsed (0x7B :: text ++ [0x7D]) (.object properties) := by
  apply parsed_brackets .JSON_TOKEN_OBJECT_START .JSON_TOKEN_OBJECT_END .object
    (fun fuel p => jsonGetProperties fuel p []) (by decide) rfl (by decide) (by decide) (by decide)
    (show _ = Json.object (JsonValue.toProperties properties) from rfl) JsonValue.fitsInt_object
  · intro fuel p p₁ hrun
    rw [JsonParser.jsonParse, hrun, Exec.ok_bind]
    show jsonGetObject (fuel + 1) p₁ = _
    rw [jsonGetObject]
    apply bind_congr
    rintro ⟨token, p₂⟩
    dsimp only
    split_ifs
    · rfl
    · apply bind_congr
      rintro ⟨_ | properties, p₃⟩
      · rfl
      · rfl
  · intro rest p fuel hfresh hfuel
    exact h [] hfresh hfuel

/-! Every text -/

mutual

theorem parsed_of_spells {text : List Byte} {value : JsonValue} :
    Spells text value → Parsed text value
  | .number negative n => parsed_number negative n
  | .string h hroom => parsed_string h hroom
  | .boolean b => parsed_boolean b
  | .null => parsed_null
  | .object h => parsed_object (propertiesParsed_of_spells h)
  | .array h => parsed_array (elementsParsed_of_spells h)

theorem propertiesParsed_of_spells {text : List Byte} {properties : List (CString × JsonValue)} :
    SpellsProperties text properties → PropertiesParsed text properties
  | .nil h => propertiesParsed_nil h
  | .single h => propertiesParsed_single (propertyParsed_of_spells h)
  | .cons h hmore =>
    propertiesParsed_cons (propertyParsed_of_spells h) (propertiesParsed_of_spells hmore)

theorem propertyParsed_of_spells {text : List Byte} {q : CString × JsonValue} :
    SpellsProperty text q → PropertyParsed text q
  | .mk hbefore hkey hroom hspace hbetween h hafter =>
    propertyParsed hbefore hkey hroom hspace hbetween (parsed_of_spells h) hafter

theorem elementsParsed_of_spells {text : List Byte} {elements : List JsonValue} :
    SpellsElements text elements → ElementsParsed text elements
  | .nil h => elementsParsed_nil h
  | .single hbefore h hafter => elementsParsed_single hbefore (parsed_of_spells h) hafter
  | .cons hbefore h hafter hmore =>
    elementsParsed_cons hbefore (parsed_of_spells h) hafter (elementsParsed_of_spells hmore)

end

end JsonParser

/-- The parser reads the value that a text spells, unless there is a number that is no `int`. -/
theorem jsonParseUnterminatedString_document {text : List Byte} {value : JsonValue}
    (h : SpellsDocument text value) {fuel : ℕ} (hfuel : 4 * text.length + 6 ≤ fuel) :
    (value.FitsInt → jsonParseUnterminatedString fuel text = .ok (.ok value.toJson)) ∧
      (¬value.FitsInt → jsonParseUnterminatedString fuel text = .error .undefinedBehaviour) := by
  obtain ⟨hnoNul, before, body, after, htext, hbefore, hafter, hspells⟩ := h
  subst htext
  have hfresh : (makeJsonParser (before ++ (body ++ after))).Fresh (before ++ (body ++ after)) :=
    ⟨rfl, rfl, hnoNul, Or.inl ⟨rfl, rfl⟩⟩
  have hends : Ends (after ++ []) := JsonParser.ends_space hafter ⟨rfl, rfl⟩
  rw [List.append_nil] at hends
  have hparse := (JsonParser.parsed_of_spells hspells).jsonParse hends hbefore hfresh hfuel
  constructor
  · intro hfits
    obtain ⟨p, hrun, hafter'⟩ := hparse.ok hfits
    have hend : p.Fresh (after ++ ([] ++ [])) := by rwa [List.append_nil, List.append_nil]
    have hready := JsonParser.Ready.unseen hend hafter (.eof rfl) le_rfl
    obtain ⟨p', hrun', -⟩ := hready.jsonMatchToken (show _ < fuel by
      simp only [List.length_append, List.length_nil] at hfuel ⊢
      omega) (rfl : _ = JsonTokenType.JSON_TOKEN_EOF)
    unfold jsonParseUnterminatedString
    rw [hrun, Exec.ok_bind]
    dsimp only
    rw [hrun', Exec.ok_bind]
    rfl
  · intro hfits
    unfold jsonParseUnterminatedString
    rw [hparse.fault hfits]
    rfl

end ZoweCommon
