import ZoweCommon.Json.GrammarParsed

/-! Which integers keep their value when they are parsed. -/
namespace ZoweCommon

open CLibrary CString JsonTokenizer

theorem strtoll_literal {s : CString} {negative : Bool} {ds : List ℕ} (hne : ds ≠ [])
    (hds : ∀ d ∈ ds, d < 10) (h : s.bytes = signedDigits negative ds) :
    strtoll s = BitVec.ofInt 64
      (max (-2 ^ 63) (min (numeralValue negative (Decimal.value ds)) (2 ^ 63 - 1))) := by
  obtain ⟨hsign, hdigits⟩ := digits_of_literal hne hds h
  unfold strtoll
  dsimp only
  rw [hsign]
  dsimp only
  rw [hdigits]
  rfl

namespace JsonTokenizer

variable {t : JsonTokenizer} {rest : List Byte}

theorem bufferSize_jsonTokenizerSkipWhitespace (fuel : ℕ) (t : JsonTokenizer) :
    (t.jsonTokenizerSkipWhitespace fuel).Returns fun t' => t'.bufferSize = t.bufferSize := by
  induction fuel generalizing t with
  | zero => exact .error _ _
  | succ fuel ih =>
    have hlook := bufferSize_jsonTokenizerLookahead t
    rw [JsonTokenizer.jsonTokenizerSkipWhitespace]
    apply Exec.Returns.ite
    · intro t' ht'
      exact (ih _ t' ht').trans ((bufferSize_jsonTokenizerRead _).trans hlook)
    · exact .ok hlook

theorem At.getNumberTokenV2_literal {negative : Bool} {ds : List ℕ} {fuel : ℕ} (hne : ds ≠ [])
    (hds : ∀ d ∈ ds, d < 10) (h : t.At (signedDigits negative ds ++ rest))
    (hrest : isdigit (peek rest) = false) (hpoint : peek rest ≠ 0x2E) (hfuel : ds.length < fuel) :
    ∃ t', JsonTokenizer.getNumberTokenV2 fuel t =
      .ok (makeJsonToken .JSON_TOKEN_INT64 ((signedDigits negative ds).take t.bufferSize), t') ∧
      t'.At rest := by
  obtain ⟨hdigit, t₁, hrun, h₁⟩ := h.readLiteral hne hds hrest hfuel
  obtain ⟨t', hrun', h'⟩ := h₁.jsonTokenizerLookahead
  refine ⟨t', ?_, h'⟩
  unfold JsonTokenizer.getNumberTokenV2
  dsimp only
  rw [if_pos hdigit, hrun, Exec.ok_bind]
  dsimp only
  rw [hrun']
  dsimp only
  rw [if_neg hpoint]
  rfl

end JsonTokenizer

namespace JsonParser

variable {p : JsonParser} {space rest : List Byte} {negative : Bool} {ds : List ℕ} {fuel : ℕ}

/-- The parser stands before an integer, at any place of the text. -/
structure AtLiteral (p : JsonParser) (space : List Byte) (negative : Bool) (ds : List ℕ)
    (rest : List Byte) : Prop where
  unreadToken : p.unreadToken = none
  tokenizer : p.tokenizer.At (space ++ (signedDigits negative ds ++ rest))
  isSpace : IsSpace space
  digits_ne_nil : ds ≠ []
  digits_lt : ∀ d ∈ ds, d < 10
  notDigit : isdigit (peek rest) = false
  notPoint : peek rest ≠ 0x2E

def integerType (version : ℕ) : JsonTokenType :=
  if JSON_PARSE_VERSION_2 ≤ version then .JSON_TOKEN_INT64 else .JSON_TOKEN_NUMBER

theorem AtLiteral.jsonNextToken (h : p.AtLiteral space negative ds rest)
    (hfuel : space.length + ds.length + 1 < fuel) :
    ∃ p', p.jsonNextToken fuel = .ok (makeJsonToken (integerType p.version)
      ((signedDigits negative ds).take p.tokenizer.bufferSize), p') := by
  obtain ⟨fuel, rfl⟩ : ∃ m, fuel = m + 1 := Nat.exists_eq_succ_of_ne_zero (by omega)
  obtain ⟨tokenizer, unreadToken, jsonError, version⟩ := p
  obtain ⟨hunread, hat, hspace, hne, hds, hdigit, hpoint⟩ := h
  dsimp only at hunread hat
  subst hunread
  obtain ⟨hquote, hclass, hnoSpace⟩ := peek_literal_class negative hne hds rest
  obtain ⟨t₁, hrun₁, h₁⟩ := At.jsonTokenizerSkipWhitespace hspace hnoSpace fuel hat (by omega)
  obtain ⟨t₂, hrun₂, h₂⟩ := h₁.jsonTokenizerLookahead
  have hsize : t₂.bufferSize = tokenizer.bufferSize := by
    have hsize₁ := bufferSize_jsonTokenizerSkipWhitespace fuel tokenizer t₁ hrun₁
    have hsize₂ := bufferSize_jsonTokenizerLookahead t₁
    rw [hrun₂] at hsize₂
    exact hsize₂.trans hsize₁
  have h₃ : At { t₂ with
      lastTokenLineNumber := t₂.lineNumber
      lastTokenColumnNumber := t₂.columnNumber } (signedDigits negative ds ++ rest) := ⟨h₂.noNul, h₂.input⟩
  unfold JsonParser.jsonNextToken
  dsimp only
  rw [hrun₁, Exec.ok_bind, hrun₂]
  dsimp only
  unfold scanToken
  dsimp only
  rw [if_neg hquote, if_pos hclass]
  unfold integerType
  split_ifs with hversion
  · obtain ⟨t', hrun', -⟩ := h₃.getNumberTokenV2_literal hne hds hdigit hpoint (show _ < fuel by omega)
    rw [hrun', ← hsize]
    exact ⟨_, rfl⟩
  · obtain ⟨t', hrun', -⟩ := h₃.getNumberTokenV1_literal hne hds hdigit (show _ < fuel by omega)
    rw [hrun', ← hsize]
    exact ⟨_, rfl⟩

theorem jsonLookaheadToken_of_next {p' : JsonParser} {token : JsonToken}
    (hunread : p.unreadToken = none) (h : p.jsonNextToken fuel = .ok (token, p')) :
    p.jsonLookaheadToken fuel = .ok (token, { p' with unreadToken := some token }) := by
  unfold jsonLookaheadToken
  rw [hunread]
  dsimp only
  rw [h]
  rfl

theorem jsonGetScalar_of_unread {token : JsonToken} {type : JsonTokenType}
    (hunread : p.unreadToken = some token) (htype : token.type = type)
    (hmatched : type ≠ .JSON_TOKEN_UNMATCHED) (fuel : ℕ) (scalar : CString → Exec JsonScalar) :
    p.jsonGetScalar (fuel + 1) type scalar =
      (do return (some (.scalar (← scalar token.text)), { p with unreadToken := none })) := by
  unfold jsonGetScalar jsonMatchToken
  rw [JsonParser.jsonNextToken, hunread]
  dsimp only
  rw [Exec.pure_eq_ok, Exec.ok_bind]
  dsimp only
  rw [if_neg (not_not.mpr htype), Exec.pure_eq_ok, Exec.ok_bind]
  dsimp only
  rw [unmatched_eq_false htype hmatched, if_neg Bool.false_ne_true]

def integerScalar (version : ℕ) (text : CString) : Exec JsonScalar :=
  if JSON_PARSE_VERSION_2 ≤ version then return .int64 (strtoll text)
  else do return .number (← atoi text)

/-- The value is the number of as much of the literal as there is room for. -/
theorem AtLiteral.jsonParse (h : p.AtLiteral space negative ds rest)
    (hfuel : space.length + ds.length + 2 < fuel) :
    ∃ p', JsonParser.jsonParse fuel p = (do
      let s ← integerScalar p.version (ofBytes ((signedDigits negative ds).take p.tokenizer.bufferSize))
      return (some (.scalar s), p')) := by
  obtain ⟨fuel, rfl⟩ : ∃ m, fuel = m + 2 := ⟨fuel - 2, by omega⟩
  obtain ⟨p₁, hnext⟩ := h.jsonNextToken (show _ < fuel + 1 by omega)
  have hlook := jsonLookaheadToken_of_next h.unreadToken hnext
  have hscalar {type : JsonTokenType} (htype : integerType p.version = type)
      (hmatched : type ≠ .JSON_TOKEN_UNMATCHED) (scalar : CString → Exec JsonScalar) :=
    jsonGetScalar_of_unread (unreadToken_of_lookahead hlook) htype hmatched fuel scalar
  refine ⟨{ p₁ with unreadToken := none }, ?_⟩
  rw [JsonParser.jsonParse, hlook, Exec.ok_bind]
  dsimp only
  by_cases hversion : JSON_PARSE_VERSION_2 ≤ p.version
  · have htype : integerType p.version = .JSON_TOKEN_INT64 := if_pos hversion
    have hget := hscalar htype (by decide) fun text => return .int64 (strtoll text)
    unfold integerScalar
    rw [if_pos hversion]
    unfold makeJsonToken at hget ⊢
    rw [htype] at hget ⊢
    exact hget
  · have htype : integerType p.version = .JSON_TOKEN_NUMBER := if_neg hversion
    have hget := hscalar htype (by decide) fun text => do return .number (← atoi text)
    unfold integerScalar
    rw [if_neg hversion]
    unfold makeJsonToken at hget ⊢
    rw [htype] at hget ⊢
    exact hget

/-- The integer of the value is the one that is meant, or there is an error. -/
def KeepsInteger (value : ℤ) (run : Exec (Option Json × JsonParser)) : Prop :=
  ∃ json p, run = .ok (json, p) ∧
    ((∃ tree, json = some tree ∧ tree.integer? = some value) ∨
      json = none ∧ p.jsonError.isSome = true)

/-- The integers that a version stores. -/
def IntegerFits (version : ℕ) (value : ℤ) : Prop :=
  if JSON_PARSE_VERSION_2 ≤ version then -2 ^ 63 ≤ value ∧ value < 2 ^ 63
  else -2 ^ 31 ≤ value ∧ value < 2 ^ 31

theorem keepsInteger_scalar {value : ℤ} {s : JsonScalar} {p' : JsonParser} :
    KeepsInteger value (do
      let s ← (Except.ok s : Exec JsonScalar)
      return (some (.scalar s), p')) ↔ (Json.scalar s).integer? = some value := by
  constructor
  · rintro ⟨json, q, hrun, hjson⟩
    cases hrun
    rcases hjson with ⟨tree, htree, hvalue⟩ | ⟨hnone, -⟩
    · cases htree
      exact hvalue
    · cases hnone
  · intro h
    exact ⟨_, _, rfl, .inl ⟨_, rfl, h⟩⟩

theorem not_keepsInteger_error {value : ℤ} {fault : Fault} {p' : JsonParser} :
    ¬ KeepsInteger value (do
      let s ← (Except.error fault : Exec JsonScalar)
      return (some (.scalar s), p')) := by
  rintro ⟨json, q, hrun, -⟩
  cases hrun

def roomForDigits (negative : Bool) (k : ℕ) : ℕ := k - if negative then 1 else 0

theorem numeralValue_eq_iff {m n : ℕ} :
    numeralValue negative m = numeralValue negative n ↔ m = n := by
  unfold numeralValue
  cases negative with
  | true => simp
  | false => simp

/-- Which literals lose nothing with the digits that are left out. -/
theorem value_roomForDigits_eq_iff {k : ℕ} (hk : 1 ≤ k) :
    Decimal.value (ds.take (roomForDigits negative k)) = Decimal.value ds ↔
      (signedDigits negative ds).length ≤ k ∨ numeralValue negative (Decimal.value ds) = 0 := by
  have hzero : numeralValue negative (Decimal.value ds) = 0 ↔ Decimal.value ds = 0 := by
    unfold numeralValue
    cases negative with
    | true => simp
    | false => simp
  have hlength : (signedDigits negative ds).length ≤ k ↔ ds.length ≤ roomForDigits negative k := by
    unfold signedDigits roomForDigits
    rw [List.length_append, List.length_map]
    cases negative with
    | true =>
      show 1 + ds.length ≤ k ↔ ds.length ≤ k - 1
      omega
    | false =>
      show 0 + ds.length ≤ k ↔ ds.length ≤ k - 0
      omega
  rw [Decimal.value_take_eq_iff, hzero, hlength]

/-- An integer is clamped only if it does not fit. -/
theorem clamp_eq_iff {m n : ℕ} (hle : m ≤ n) :
    max (-2 ^ 63) (min (numeralValue negative m) (2 ^ 63 - 1)) = numeralValue negative n ↔
      (-2 ^ 63 ≤ numeralValue negative n ∧ numeralValue negative n < 2 ^ 63) ∧ m = n := by
  unfold numeralValue
  cases negative with
  | true =>
    rw [if_pos rfl, if_pos rfl]
    omega
  | false =>
    rw [if_neg Bool.false_ne_true, if_neg Bool.false_ne_true]
    omega

theorem integer?_strtoll {s : CString} (hne : ds ≠ []) (hds : ∀ d ∈ ds, d < 10)
    (h : s.bytes = signedDigits negative ds) : (Json.scalar (.int64 (strtoll s))).integer? =
      some (max (-2 ^ 63) (min (numeralValue negative (Decimal.value ds)) (2 ^ 63 - 1))) := by
  rw [strtoll_literal hne hds h, Json.integer?, BitVec.toInt_ofInt_eq_self]
  · decide
  · exact le_max_left _ _
  · rw [max_lt_iff]
    exact ⟨by decide, (min_le_right _ _).trans_lt (by decide)⟩

/-- An integer is parsed to its value if that fits and if its digits do. -/
theorem AtLiteral.jsonParse_keeps_iff (h : p.AtLiteral space negative ds rest)
    (hfuel : space.length + ds.length + 2 < fuel) :
    KeepsInteger (numeralValue negative (Decimal.value ds)) (JsonParser.jsonParse fuel p) ↔
      IntegerFits p.version (numeralValue negative (Decimal.value ds)) ∧
        ((signedDigits negative ds).length ≤ p.tokenizer.bufferSize ∨
          numeralValue negative (Decimal.value ds) = 0) := by
  have hroom := le_bufferSize p.tokenizer
  unfold JSON_TOKEN_BUFFER_SIZE at hroom
  obtain ⟨p', hparse⟩ := h.jsonParse hfuel
  let kept := ds.take (roomForDigits negative p.tokenizer.bufferSize)
  have hne : kept ≠ [] := by
    have hpos : roomForDigits negative p.tokenizer.bufferSize ≠ 0 := by
      unfold roomForDigits
      cases negative with
      | true => show p.tokenizer.bufferSize - 1 ≠ 0; omega
      | false => show p.tokenizer.bufferSize - 0 ≠ 0; omega
    rw [ne_eq, List.take_eq_nil_iff]
    exact not_or.mpr ⟨hpos, h.digits_ne_nil⟩
  have hkept : ∀ d ∈ kept, d < 10 := fun d hd => h.digits_lt d (List.mem_of_mem_take hd)
  have hbytes : (ofBytes ((signedDigits negative ds).take p.tokenizer.bufferSize)).bytes =
      signedDigits negative kept := by
    rw [take_literal (by omega)]
    exact ofBytes_of_noNul (noNul_literal hkept)
  have hle : Decimal.value kept ≤ Decimal.value ds := Decimal.value_take_le _ _
  rw [hparse, ← value_roomForDigits_eq_iff (by omega)]
  unfold integerScalar IntegerFits
  by_cases hversion : JSON_PARSE_VERSION_2 ≤ p.version
  · rw [if_pos hversion, if_pos hversion]
    rw [Exec.pure_eq_ok, keepsInteger_scalar, integer?_strtoll hne hkept hbytes, Option.some_inj]
    exact clamp_eq_iff hle
  · rw [if_neg hversion, if_neg hversion, atoi_numeral hne hkept hbytes]
    split_ifs with hfits
    · rw [Exec.ok_bind, Exec.pure_eq_ok, keepsInteger_scalar, Json.integer?,
        BitVec.toInt_ofInt_eq_self (by decide) hfits.1 hfits.2, Option.some_inj, numeralValue_eq_iff]
      constructor
      · intro heq
        rw [← heq]
        exact ⟨hfits, rfl⟩
      · exact fun hboth => hboth.2
    · constructor
      · exact fun hkeeps => absurd hkeeps not_keepsInteger_error
      · rintro ⟨hfits', heq⟩
        rw [← heq] at hfits'
        exact absurd hfits' hfits

theorem jsonParse_keeps_iff_array :
    KeepsInteger (-4294967296) (JsonParser.jsonParse 20 (makeJsonParser (ascii " -4294967296]"))) ↔
      IntegerFits 0 (-4294967296) ∧ (11 ≤ JSON_TOKEN_BUFFER_SIZE ∨ (-4294967296 : ℤ) = 0) := by
  have hat : AtLiteral (makeJsonParser (ascii " -4294967296]")) [0x20] true
      [4, 2, 9, 4, 9, 6, 7, 2, 9, 6] [0x5D] := by
    refine ⟨rfl, ⟨?_, .inl ⟨rfl, rfl⟩⟩, ?_, by decide, by decide, by decide, by decide⟩
    · intro c hc hzero
      rw [hzero] at hc
      exact absurd hc (by decide)
    · intro c hc
      rw [List.mem_singleton.mp hc]
      decide
  exact hat.jsonParse_keeps_iff (by decide)

/-- What is more than an `int64_t` becomes the largest one. -/
theorem not_jsonParse_keeps : ¬ KeepsInteger 9223372036854775808 (JsonParser.jsonParse 30
    { makeJsonParser (ascii "9223372036854775808") with version := JSON_PARSE_VERSION_2 }) := by
  have hrun : ∃ p, JsonParser.jsonParse 30
      { makeJsonParser (ascii "9223372036854775808") with version := JSON_PARSE_VERSION_2 } =
        .ok (some (.scalar (.int64 0x7FFFFFFFFFFFFFFF)), p) := ⟨_, rfl⟩
  obtain ⟨p, hrun⟩ := hrun
  rintro ⟨json, q, hkeeps, hjson⟩
  rw [hrun] at hkeeps
  cases hkeeps
  rcases hjson with ⟨tree, htree, hvalue⟩ | ⟨hnone, -⟩
  · cases htree
    exact absurd hvalue (by decide)
  · cases hnone

end JsonParser
end ZoweCommon
