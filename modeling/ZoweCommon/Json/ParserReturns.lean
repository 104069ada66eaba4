import ZoweCommon.Json.Termination

/-! The parser returns a tree or an error. What `atoi` makes of a number that is no `int` is left
open. -/
namespace ZoweCommon

open CLibrary CString

/-- A number, or whatever `atoi` makes of what is none. -/
def numberOf (unspecified : CString → BitVec 32) (text : CString) : Exec JsonScalar :=
  match atoi text with
  | .ok n => return .number n
  | .error _ => return .number (unspecified text)

namespace JsonTokenizer

open Exec (HasMeaning)

variable {t : JsonTokenizer} {fuel : ℕ}

theorem hasMeaning_jsonTokenizerSkipWhitespace (fuel : ℕ) (t : JsonTokenizer) :
    HasMeaning (t.jsonTokenizerSkipWhitespace fuel) := by
  induction fuel generalizing t with
  | zero => exact .nonTermination
  | succ fuel ih =>
    rw [jsonTokenizerSkipWhitespace]
    exact .ite (ih _) (.ok _)

theorem hasMeaning_readWhile (class_ : ℤ → Bool) (fuel : ℕ) (t : JsonTokenizer)
    (buffer : List Byte) : HasMeaning (readWhile class_ fuel t buffer) := by
  induction fuel generalizing t buffer with
  | zero => exact .nonTermination
  | succ fuel ih =>
    rw [readWhile]
    exact .ite (ih _ _) (.ok _)

theorem hasMeaning_getStringTokenFrom (fuel : ℕ) (t : JsonTokenizer) (buffer : List Byte) :
    HasMeaning (getStringTokenFrom fuel t buffer) := by
  induction fuel generalizing t buffer with
  | zero => exact .nonTermination
  | succ fuel ih =>
    rw [getStringTokenFrom]
    dsimp only
    apply HasMeaning.ite (.ok _)
    apply HasMeaning.ite (.ok _)
    apply HasMeaning.ite
    · split
      · exact .ok _
      · exact ih _ _
    apply HasMeaning.ite
    · split
      · exact .ok _
      · exact ih _ _
    · exact ih _ _

theorem hasMeaning_getBlockCommentTokenFrom (fuel : ℕ) (t : JsonTokenizer) (buffer : List Byte)
    (c : ℤ) : HasMeaning (getBlockCommentTokenFrom fuel t buffer c) := by
  induction fuel generalizing t buffer c with
  | zero => exact .nonTermination
  | succ fuel ih =>
    rw [getBlockCommentTokenFrom]
    exact .ite (.ok _) (.ite (.ok _) (ih _ _ _))

theorem hasMeaning_getNumberTokenV1 : HasMeaning (t.getNumberTokenV1 fuel) :=
  .ite (.seq (hasMeaning_readWhile _ _ _ _) fun _ => .ok _) (.ok _)

theorem hasMeaning_getNumberTokenV2 : HasMeaning (t.getNumberTokenV2 fuel) := by
  apply HasMeaning.ite
  · apply HasMeaning.seq (hasMeaning_readWhile _ _ _ _)
    intro r
    apply HasMeaning.ite
    · exact .ite (.seq (hasMeaning_readWhile _ _ _ _) fun _ => .ok _) (.ok _)
    · exact .ok _
  · exact .ok _

theorem hasMeaning_getReservedWordToken : HasMeaning (t.getReservedWordToken fuel) := by
  apply HasMeaning.seq (hasMeaning_readWhile _ _ _ _)
  intro r
  exact .ite (.ok _) (.ite (.ok _) (.ok _))

theorem hasMeaning_getCommentToken : HasMeaning (t.getCommentToken fuel) := by
  apply HasMeaning.ite
  · exact .seq (hasMeaning_readWhile _ _ _ _) fun _ => .ok _
  · exact .ite (hasMeaning_getBlockCommentTokenFrom _ _ _ _) (.ok _)

end JsonTokenizer

namespace JsonParser

open JsonTokenizer
open Exec (HasMeaning)

variable {p : JsonParser} {fuel : ℕ}

theorem hasMeaning_scanToken {lookahead : ℤ} : HasMeaning (scanToken fuel p lookahead) := by
  have hscan {scan : Exec (JsonToken × JsonTokenizer)} (h : HasMeaning scan) :
      HasMeaning (do
        let r ← scan
        return (r.1, { p with tokenizer := r.2 }) : Exec (JsonToken × JsonParser)) :=
    h.seq fun _ => .ok _
  unfold scanToken
  apply HasMeaning.ite (hscan (hasMeaning_getStringTokenFrom _ _ _))
  apply HasMeaning.ite
  · apply hscan
    exact .ite hasMeaning_getNumberTokenV2 hasMeaning_getNumberTokenV1
  apply HasMeaning.ite (hscan hasMeaning_getReservedWordToken)
  cases punctuation lookahead with
  | some token => exact .ok _
  | none => exact .ite (hscan hasMeaning_getCommentToken) (.ite (.ok _) (.ok _))

theorem hasMeaning_jsonNextToken (fuel : ℕ) (p : JsonParser) :
    HasMeaning (p.jsonNextToken fuel) := by
  induction fuel generalizing p with
  | zero => exact .nonTermination
  | succ fuel ih =>
    rw [jsonNextToken]
    cases p.unreadToken with
    | some token => exact .ok _
    | none =>
      apply HasMeaning.seq (hasMeaning_jsonTokenizerSkipWhitespace _ _)
      intro t
      apply HasMeaning.seq hasMeaning_scanToken
      intro r
      exact .ite ((ih _).seq fun _ => .ok _) (.ok _)

theorem hasMeaning_jsonLookaheadToken : HasMeaning (p.jsonLookaheadToken fuel) := by
  unfold jsonLookaheadToken
  cases p.unreadToken with
  | some token => exact .ok _
  | none => exact (hasMeaning_jsonNextToken _ _).seq fun _ => .ok _

theorem hasMeaning_jsonMatchToken {type : JsonTokenType} :
    HasMeaning (p.jsonMatchToken fuel type) :=
  (hasMeaning_jsonNextToken _ _).seq fun _ => .ite (.ok _) (.ok _)

theorem hasMeaning_jsonGetScalar {type : JsonTokenType} {scalar : CString → Exec JsonScalar}
    (h : ∀ text, HasMeaning (scalar text)) : HasMeaning (p.jsonGetScalar fuel type scalar) :=
  hasMeaning_jsonMatchToken.seq fun _ => .ite (.ok _) ((h _).seq fun _ => .ok _)

theorem hasMeaning_values {number : CString → Exec JsonScalar}
    (hnumber : ∀ text, HasMeaning (number text)) (fuel : ℕ) :
    (∀ p, HasMeaning (jsonParseWith number fuel p)) ∧
    (∀ p, HasMeaning (jsonGetObjectWith number fuel p)) ∧
    (∀ p properties, HasMeaning (jsonGetPropertiesWith number fuel p properties)) ∧
    (∀ p, HasMeaning (jsonGetArrayWith number fuel p)) ∧
    ∀ p elements, HasMeaning (jsonGetElementsWith number fuel p elements) := by
  induction fuel with
  | zero =>
    refine ⟨?_, ?_, ?_, ?_, ?_⟩
    all_goals
      intros
      exact .nonTermination
  | succ fuel ih =>
    obtain ⟨ihParse, ihObject, ihProperties, ihArray, ihElements⟩ := ih
    refine ⟨?_, ?_, ?_, ?_, ?_⟩
    · intro p
      rw [jsonParseWith]
      apply hasMeaning_jsonLookaheadToken.seq
      intro r
      have hscalar {type : JsonTokenType} {scalar : CString → Exec JsonScalar}
          (h : ∀ text, HasMeaning (scalar text)) : HasMeaning (r.2.jsonGetScalar fuel type scalar) :=
        hasMeaning_jsonGetScalar h
      dsimp only
      split
      · exact hscalar hnumber
      · exact hscalar fun _ => .ok _
      · exact hscalar fun _ => .ok _
      · exact hscalar fun _ => .ok _
      · exact hscalar fun _ => .ok _
      · exact hscalar fun _ => .ok _
      · exact ihObject _
      · exact ihArray _
      · exact .ok _
    · intro p
      rw [jsonGetObjectWith]
      apply hasMeaning_jsonMatchToken.seq
      intro r
      apply HasMeaning.ite (.ok _)
      apply (ihProperties _ _).seq
      intro r
      obtain ⟨properties, p₂⟩ := r
      cases properties with
      | none => exact .ok _
      | some properties => exact hasMeaning_jsonMatchToken.seq fun _ => .ite (.ok _) (.ok _)
    · intro p properties
      rw [jsonGetPropertiesWith]
      apply hasMeaning_jsonLookaheadToken.seq
      intro r
      apply HasMeaning.ite _ (.ok _)
      apply hasMeaning_jsonMatchToken.seq
      intro r
      apply hasMeaning_jsonMatchToken.seq
      intro r
      apply HasMeaning.ite (.ok _)
      apply (ihParse _).seq
      intro r
      obtain ⟨value, p₂⟩ := r
      cases value with
      | none => exact .ok _
      | some value =>
        apply hasMeaning_jsonLookaheadToken.seq
        intro r
        exact .ite (hasMeaning_jsonMatchToken.seq fun _ => ihProperties _ _) (.ok _)
    · intro p
      rw [jsonGetArrayWith]
      apply hasMeaning_jsonMatchToken.seq
      intro r
      apply HasMeaning.ite (.ok _)
      apply (ihElements _ _).seq
      intro r
      obtain ⟨elements, p₂⟩ := r
      cases elements with
      | none => exact .ok _
      | some elements => exact hasMeaning_jsonMatchToken.seq fun _ => .ite (.ok _) (.ok _)
    · intro p elements
      rw [jsonGetElementsWith]
      apply hasMeaning_jsonLookaheadToken.seq
      intro r
      apply HasMeaning.ite _ (.ok _)
      apply (ihParse _).seq
      intro r
      obtain ⟨element, p₂⟩ := r
      cases element with
      | none => exact .ok _
      | some element =>
        apply hasMeaning_jsonLookaheadToken.seq
        intro r
        exact .ite (hasMeaning_jsonMatchToken.seq fun _ => ihElements _ _) (.ok _)

/-! The recorded error -/

def recordedTypes : List JsonTokenType :=
  [.JSON_TOKEN_UNEXPECTED_CHAR, .JSON_TOKEN_UNTERMINATED_STRING, .JSON_TOKEN_BAD_COMMENT,
    .JSON_TOKEN_UNTERMINATED_BLOCK_COMMENT, .JSON_TOKEN_STRING_TOO_LONG]

theorem not_expected_of_recorded {type : JsonTokenType} (h : type ∈ recordedTypes) :
    type ∉ expectedTypes := by
  revert type
  decide

theorem jsonParseFail_eq_self {p : JsonParser} (h : p.jsonError.isSome = true)
    (message : List Byte) : p.jsonParseFail message = p := by
  unfold jsonParseFail
  cases herror : p.jsonError with
  | none =>
    rw [herror] at h
    cases h
  | some error => exact if_neg Bool.false_ne_true

theorem isSome_jsonParseFail (p : JsonParser) (message : List Byte) :
    (p.jsonParseFail message).jsonError.isSome = true := by
  cases herror : p.jsonError with
  | none =>
    unfold jsonParseFail
    rw [herror]
    rfl
  | some error =>
    have hsome : p.jsonError.isSome = true := by rw [herror]; rfl
    rw [jsonParseFail_eq_self hsome]
    exact hsome

def Records (p : JsonParser) (r : JsonToken × JsonParser) : Prop :=
  r.2.unreadToken = none ∧
    (r.2.jsonError = p.jsonError ∨ r.1.type ∈ recordedTypes ∧ r.2.jsonError.isSome = true)

theorem scanToken_records {lookahead : ℤ} (hunread : p.unreadToken = none) :
    (scanToken fuel p lookahead).Returns p.Records := by
  have hplain {token : JsonToken} {t : JsonTokenizer} :
      p.Records (token, { p with tokenizer := t }) := ⟨hunread, .inl rfl⟩
  have hscan {scan : Exec (JsonToken × JsonTokenizer)} :
      (do let r ← scan
          return (r.1, { p with tokenizer := r.2 }) :
            Exec (JsonToken × JsonParser)).Returns p.Records :=
    Exec.Returns.seq fun _ => .ok hplain
  unfold scanToken
  apply Exec.Returns.ite hscan
  apply Exec.Returns.ite hscan
  apply Exec.Returns.ite hscan
  cases punctuation lookahead with
  | some token => exact .ok hplain
  | none =>
    apply Exec.Returns.ite hscan
    apply Exec.Returns.ite
    · exact .ok hplain
    · apply Exec.Returns.ok
      refine ⟨?_, .inr ⟨List.mem_cons_self, isSome_jsonParseFail _ _⟩⟩
      rw [unreadToken_jsonParseFail]
      exact hunread

theorem jsonValidateToken_records (token : JsonToken) (hunread : p.unreadToken = none) :
    p.Records (token, p.jsonValidateToken token) := by
  have hrecorded {type : JsonTokenType} (htype : token.type = type) (h : type ∈ recordedTypes)
      (message : List Byte) :
      (p.jsonParseFail message).jsonError = p.jsonError ∨
        token.type ∈ recordedTypes ∧ (p.jsonParseFail message).jsonError.isSome = true :=
    .inr ⟨htype ▸ h, isSome_jsonParseFail _ _⟩
  constructor
  · rw [(jsonValidateToken_same p token).2, hunread]
  · unfold jsonValidateToken
    dsimp only
    split
    case h_1 htype => exact hrecorded htype (by decide) _
    case h_2 htype => exact hrecorded htype (by decide) _
    case h_3 htype => exact hrecorded htype (by decide) _
    case h_4 htype => exact hrecorded htype (by decide) _
    case h_5 => exact .inl rfl

theorem Records.validate {token : JsonToken} {p' : JsonParser} (h : p.Records (token, p')) :
    p.Records (token, p'.jsonValidateToken token) := by
  have hvalidate := jsonValidateToken_records token h.1
  refine ⟨hvalidate.1, ?_⟩
  rcases hvalidate.2 with heq | hrecorded
  · rw [heq]
    exact h.2
  · exact .inr hrecorded

/-- A comment comes with no error. -/
theorem jsonNextToken_records (fuel : ℕ) {p : JsonParser} (hunread : p.unreadToken = none) :
    (p.jsonNextToken fuel).Returns p.Records := by
  induction fuel generalizing p with
  | zero => exact .error _ _
  | succ fuel ih =>
    rw [jsonNextToken, hunread]
    dsimp only
    apply Exec.Returns.seq
    intro t
    let p₁ : JsonParser := { p with
      tokenizer := { t.jsonTokenizerLookahead.2 with
        lastTokenLineNumber := t.jsonTokenizerLookahead.2.lineNumber
        lastTokenColumnNumber := t.jsonTokenizerLookahead.2.columnNumber }
      unreadToken := none }
    have hscan : (scanToken fuel p₁ t.jsonTokenizerLookahead.1).Returns p₁.Records :=
      scanToken_records rfl
    refine Exec.Returns.bind hscan ?_
    intro r hr
    obtain ⟨token, p₂⟩ := r
    have hp : p.Records (token, p₂) := hr
    dsimp only
    split_ifs with hcomment
    · have hsame : p₂.jsonError = p.jsonError := by
        rcases hp.2 with heq | ⟨hrecorded, -⟩
        · exact heq
        · rcases hcomment with htype | htype
          · rw [htype] at hrecorded
            exact absurd hrecorded (by decide)
          · rw [htype] at hrecorded
            exact absurd hrecorded (by decide)
      refine Exec.Returns.bind (ih hp.1) ?_
      intro r' hr'
      obtain ⟨token', p₃⟩ := r'
      have h₃ : p.Records (token', p₃) := by
        refine ⟨hr'.1, ?_⟩
        rw [← hsame]
        exact hr'.2
      exact .ok h₃.validate
    · exact .ok hp.validate

/-! The whole text -/

/-- An error is recorded only while a token waits that nothing expects. -/
def Sound (p : JsonParser) : Prop :=
  p.jsonError = none ∨ ∃ token, p.unreadToken = some token ∧ token.type ∉ expectedTypes

theorem Sound.jsonNextToken (h : p.Sound) {token : JsonToken} {p' : JsonParser}
    (hrun : p.jsonNextToken fuel = .ok (token, p')) :
    p'.jsonError = none ∨ token.type ∉ expectedTypes := by
  cases hunread : p.unreadToken with
  | some unread =>
    obtain ⟨rfl, rfl⟩ := Prod.mk.inj (jsonNextToken_of_unread hunread hrun)
    rcases h with hnone | ⟨token', htoken', hbad⟩
    · exact .inl hnone
    · rw [hunread] at htoken'
      cases htoken'
      exact .inr hbad
  | none =>
    have hnone : p.jsonError = none := by
      rcases h with hnone | ⟨token', htoken', -⟩
      · exact hnone
      · rw [hunread] at htoken'
        cases htoken'
    rcases (jsonNextToken_records fuel hunread _ hrun).2 with heq | ⟨hrecorded, -⟩
    · exact .inl (heq.trans hnone)
    · exact .inr (not_expected_of_recorded hrecorded)

theorem isSome_jsonNextToken (h : p.jsonError.isSome = true) {token : JsonToken} {p' : JsonParser}
    (hrun : p.jsonNextToken fuel = .ok (token, p')) : p'.jsonError.isSome = true := by
  cases hunread : p.unreadToken with
  | some unread =>
    obtain ⟨rfl, rfl⟩ := Prod.mk.inj (jsonNextToken_of_unread hunread hrun)
    exact h
  | none =>
    rcases (jsonNextToken_records fuel hunread _ hrun).2 with heq | ⟨-, hsome⟩
    · rw [show p'.jsonError = p.jsonError from heq]
      exact h
    · exact hsome

theorem isSome_jsonMatchToken (h : p.jsonError.isSome = true) {type : JsonTokenType}
    {token : JsonToken} {p' : JsonParser} (hrun : p.jsonMatchToken fuel type = .ok (token, p')) :
    p'.jsonError.isSome = true := by
  rcases jsonMatchToken_cases hrun with ⟨-, hnext⟩ | ⟨next, q, -, -, rfl⟩
  · exact isSome_jsonNextToken h hnext
  · exact isSome_jsonParseFail _ _

/-- Whoever goes on has recorded nothing, whoever gives up has. -/
theorem keeps_sound : Keeps Sound (fun p => p.jsonError.isSome = true) where
  lookahead := by
    intro p p' fuel token h hrun
    unfold jsonLookaheadToken at hrun
    cases hunread : p.unreadToken with
    | some unread =>
      rw [hunread] at hrun
      obtain ⟨rfl, rfl⟩ := Prod.mk.inj (Except.ok.inj hrun)
      exact h
    | none =>
      rw [hunread] at hrun
      obtain ⟨⟨next, q⟩, hnext, hrun⟩ := Exec.bind_eq_ok.mp hrun
      obtain ⟨rfl, rfl⟩ := Prod.mk.inj (Except.ok.inj hrun)
      rcases h.jsonNextToken hnext with hnone | hbad
      · exact .inl hnone
      · exact .inr ⟨next, rfl, hbad⟩
  matched := by
    intro p p' fuel type token h htype hrun hmatched
    rcases jsonMatchToken_cases hrun with ⟨htoken, hnext⟩ | ⟨next, q, -, hunmatched, -⟩
    · rcases h.jsonNextToken hnext with hnone | hbad
      · exact .inl hnone
      · rw [htoken] at hbad
        exact absurd htype hbad
    · rw [hmatched] at hunmatched
      cases hunmatched
  unmatched := by
    intro p p' fuel type token h htype hrun hunmatched
    rcases jsonMatchToken_cases hrun with ⟨htoken, hnext⟩ | ⟨next, q, -, -, rfl⟩
    · have hne : type ≠ .JSON_TOKEN_UNMATCHED := by
        rintro rfl
        exact absurd htype (by decide)
      rw [unmatched_eq_false htoken hne] at hunmatched
      cases hunmatched
    · exact isSome_jsonParseFail _ _
  unexpected := by
    intro p message _
    exact isSome_jsonParseFail _ _

/-! The whole text -/

/-- The tree of a text that ends where the value does, and the parser that is left. -/
def parseDocument (number : CString → Exec JsonScalar) (fuel : ℕ) (jsonString : List Byte) :
    Exec (Option Json × JsonParser) := do
  let (json, p) ← jsonParseWith number fuel (makeJsonParser jsonString)
  let (token, p) ← p.jsonMatchToken fuel .JSON_TOKEN_EOF
  return (if jsonIsTokenUnmatched token then none else json, p)

def jsonParseUnterminatedStringWith (number : CString → Exec JsonScalar) (fuel : ℕ)
    (jsonString : List Byte) : Exec (Except CString Json) := do
  let (json, p) ← parseDocument number fuel jsonString
  match json, p.jsonError with
  | some json, _ => return .ok json
  | none, some message => return .error message
  | none, none => throw .undefinedBehaviour

/-! A number that is no `int` makes no other difference. -/

theorem parseDocument_leaves (number : CString → Exec JsonScalar) (fuel : ℕ)
    (jsonString : List Byte) : (parseDocument number fuel jsonString).Returns fun r =>
      r.1.isSome = true ∧ r.2.jsonError = none ∨ r.1 = none ∧ r.2.jsonError.isSome = true := by
  intro r hr
  unfold parseDocument at hr
  obtain ⟨⟨json, p₁⟩, hvalue, hr⟩ := Exec.bind_eq_ok.mp hr
  obtain ⟨⟨token, p₂⟩, hmatch, hr⟩ := Exec.bind_eq_ok.mp hr
  cases hr
  have hleaves := (keeps_sound.values number fuel).1 (makeJsonParser jsonString) (.inl rfl) _ hvalue
  dsimp only
  cases json with
  | none =>
    right
    exact ⟨ite_self _, isSome_jsonMatchToken hleaves hmatch⟩
  | some tree =>
    cases hunmatched : jsonIsTokenUnmatched token with
    | true =>
      right
      exact ⟨if_pos rfl, keeps_sound.unmatched hleaves (by decide) hmatch hunmatched⟩
    | false =>
      left
      rcases jsonMatchToken_cases hmatch with ⟨htoken, hnext⟩ | ⟨next, q, -, htrue, -⟩
      · rcases hleaves.jsonNextToken hnext with hnone | hbad
        · exact ⟨rfl, hnone⟩
        · rw [htoken] at hbad
          exact absurd (by decide) hbad
      · rw [hunmatched] at htrue
        cases htrue

theorem parseDocument_returns (unspecified : CString → BitVec 32) {fuel : ℕ}
    {jsonString : List Byte} (h : 8 * jsonString.length + 6 < fuel) :
    ∃ r, parseDocument (numberOf unspecified) fuel jsonString = .ok r := by
  have hnumber (text : CString) : ∃ s, numberOf unspecified text = .ok s := by
    unfold numberOf
    cases atoi text with
    | ok n => exact ⟨_, rfl⟩
    | error fault => exact ⟨_, rfl⟩
  have hmeaning (text : CString) : HasMeaning (numberOf unspecified text) := by
    obtain ⟨s, hs⟩ := hnumber text
    rw [hs]
    exact .ok s
  have hends (text : CString) : (numberOf unspecified text).Ends := by
    obtain ⟨s, hs⟩ := hnumber text
    rw [hs]
    exact .ok s
  have hremaining := remaining_makeJsonParser jsonString
  have hvalue := (ends_values hends fuel).1 (makeJsonParser jsonString) (by omega)
  obtain ⟨⟨json, p⟩, hjson⟩ :=
    ((hasMeaning_values hmeaning fuel).1 (makeJsonParser jsonString)).eq_ok hvalue.1
  have hle : p.remaining ≤ _ := (hvalue.2 _ hjson).1
  have heof : (p.jsonMatchToken fuel .JSON_TOKEN_EOF).Ends :=
    (ends_jsonMatchToken (by omega)).1
  obtain ⟨⟨token, p'⟩, hmatch⟩ := hasMeaning_jsonMatchToken.eq_ok heof
  unfold parseDocument
  rw [hjson, Exec.ok_bind]
  dsimp only
  rw [hmatch, Exec.ok_bind]
  exact ⟨_, rfl⟩

/-- Every text, well-formed or not, comes to a tree with no error recorded or to an error. -/
theorem jsonParseUnterminatedString_returns (unspecified : CString → BitVec 32) {fuel : ℕ}
    {jsonString : List Byte} (h : 8 * jsonString.length + 6 < fuel) :
    ∃ json p, parseDocument (numberOf unspecified) fuel jsonString = .ok (json, p) ∧
      ((∃ tree, json = some tree ∧ p.jsonError = none ∧
          jsonParseUnterminatedStringWith (numberOf unspecified) fuel jsonString = .ok (.ok tree)) ∨
        ∃ message, json = none ∧ p.jsonError = some message ∧
          jsonParseUnterminatedStringWith (numberOf unspecified) fuel jsonString =
            .ok (.error message)) := by
  obtain ⟨⟨json, p⟩, hrun⟩ := parseDocument_returns unspecified h
  refine ⟨json, p, hrun, ?_⟩
  unfold jsonParseUnterminatedStringWith
  rw [hrun, Exec.ok_bind]
  rcases parseDocument_leaves _ _ _ _ hrun with ⟨hsome, hnone⟩ | ⟨hnone, hsome⟩
  · left
    obtain ⟨tree, htree⟩ := Option.isSome_iff_exists.mp hsome
    dsimp only at htree hnone ⊢
    rw [htree]
    exact ⟨tree, rfl, hnone, rfl⟩
  · right
    obtain ⟨message, hmessage⟩ := Option.isSome_iff_exists.mp hsome
    dsimp only at hnone hmessage ⊢
    rw [hnone, hmessage]
    exact ⟨message, rfl, rfl, rfl⟩

/-- A truncated text, with a number that `atoi` cannot hold. -/
theorem jsonParseUnterminatedString_returns_truncated :
    ∃ json p, parseDocument (numberOf fun text => (strtoll text).truncate 32) 150
        (ascii "[4294967297,") = .ok (json, p) ∧
      ((∃ tree, json = some tree ∧ p.jsonError = none ∧
          jsonParseUnterminatedStringWith (numberOf fun text => (strtoll text).truncate 32) 150
            (ascii "[4294967297,") = .ok (.ok tree)) ∨
        ∃ message, json = none ∧ p.jsonError = some message ∧
          jsonParseUnterminatedStringWith (numberOf fun text => (strtoll text).truncate 32) 150
            (ascii "[4294967297,") = .ok (.error message)) :=
  jsonParseUnterminatedString_returns _ (by decide)

end JsonParser
end ZoweCommon
