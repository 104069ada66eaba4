import ZoweCommon.Json.Parser

/-! The parser with what is made of the text of a number left open, and what its functions keep. -/
namespace ZoweCommon
namespace JsonParser

open CLibrary CString

mutual

def jsonParseWith (number : CString → Exec JsonScalar) :
    ℕ → JsonParser → Exec (Option Json × JsonParser)
  | 0, _ => throw .nonTermination
  | fuel + 1, p => do
    let (lookahead, p) ← p.jsonLookaheadToken fuel
    match lookahead.type with
    | .JSON_TOKEN_NUMBER => p.jsonGetScalar fuel .JSON_TOKEN_NUMBER number
    | .JSON_TOKEN_INT64 => p.jsonGetInt64 fuel
    | .JSON_TOKEN_FLOAT => p.jsonGetFloat fuel
    | .JSON_TOKEN_STRING => p.jsonGetString fuel
    | .JSON_TOKEN_BOOLEAN => p.jsonGetBoolean fuel
    | .JSON_TOKEN_NULL => p.jsonGetNull fuel
    | .JSON_TOKEN_OBJECT_START => jsonGetObjectWith number fuel p
    | .JSON_TOKEN_ARRAY_START => jsonGetArrayWith number fuel p
    | _ => return (none, p.jsonParseFail (ascii "unexpected " ++ lookahead.text.bytes))

def jsonGetObjectWith (number : CString → Exec JsonScalar) :
    ℕ → JsonParser → Exec (Option Json × JsonParser)
  | 0, _ => throw .nonTermination
  | fuel + 1, p => do
    let (token, p) ← p.jsonMatchToken fuel .JSON_TOKEN_OBJECT_START
    if jsonIsTokenUnmatched token then return (none, p)
    match ← jsonGetPropertiesWith number fuel p [] with
    | (none, p) => return (none, p)
    | (some properties, p) =>
      let (token, p) ← p.jsonMatchToken fuel .JSON_TOKEN_OBJECT_END
      if jsonIsTokenUnmatched token then return (none, p)
      return (some (.object properties), p)

def jsonGetPropertiesWith (number : CString → Exec JsonScalar) :
    ℕ → JsonParser → List (CString × Json) → Exec (Option (List (CString × Json)) × JsonParser)
  | 0, _, _ => throw .nonTermination
  | fuel + 1, p, properties => do
    let (lookahead, p) ← p.jsonLookaheadToken fuel
    if lookahead.type = .JSON_TOKEN_STRING then
      let (keyToken, p) ← p.jsonMatchToken fuel .JSON_TOKEN_STRING
      let (colonToken, p) ← p.jsonMatchToken fuel .JSON_TOKEN_COLON
      if jsonIsTokenUnmatched colonToken then return (none, p)
      match ← jsonParseWith number fuel p with
      | (none, p) => return (none, p)
      | (some value, p) =>
        let properties := properties ++ [(keyToken.text, value)]
        let (lookahead, p) ← p.jsonLookaheadToken fuel
        if lookahead.type = .JSON_TOKEN_COMMA then
          let (_, p) ← p.jsonMatchToken fuel .JSON_TOKEN_COMMA
          jsonGetPropertiesWith number fuel p properties
        else return (some properties, p)
    else return (some properties, p)

def jsonGetArrayWith (number : CString → Exec JsonScalar) :
    ℕ → JsonParser → Exec (Option Json × JsonParser)
  | 0, _ => throw .nonTermination
  | fuel + 1, p => do
    let (token, p) ← p.jsonMatchToken fuel .JSON_TOKEN_ARRAY_START
    if jsonIsTokenUnmatched token then return (none, p)
    match ← jsonGetElementsWith number fuel p [] with
    | (none, p) => return (none, p)
    | (some elements, p) =>
      let (token, p) ← p.jsonMatchToken fuel .JSON_TOKEN_ARRAY_END
      if jsonIsTokenUnmatched token then return (none, p)
      return (some (.array elements), p)

def jsonGetElementsWith (number : CString → Exec JsonScalar) :
    ℕ → JsonParser → List Json → Exec (Option (List Json) × JsonParser)
  | 0, _, _ => throw .nonTermination
  | fuel + 1, p, elements => do
    let (lookahead, p) ← p.jsonLookaheadToken fuel
    if lookahead.type ≠ .JSON_TOKEN_ARRAY_END then
      match ← jsonParseWith number fuel p with
      | (none, p) => return (none, p)
      | (some element, p) =>
        let elements := elements ++ [element]
        let (lookahead, p) ← p.jsonLookaheadToken fuel
        if lookahead.type = .JSON_TOKEN_COMMA then
          let (_, p) ← p.jsonMatchToken fuel .JSON_TOKEN_COMMA
          jsonGetElementsWith number fuel p elements
        else return (some elements, p)
    else return (some elements, p)

end

def atoiNumber (text : CString) : Exec JsonScalar := do return .number (← atoi text)

theorem values_with_atoi (fuel : ℕ) :
    (∀ p, jsonParseWith atoiNumber fuel p = jsonParse fuel p) ∧
    (∀ p, jsonGetObjectWith atoiNumber fuel p = jsonGetObject fuel p) ∧
    (∀ p properties,
      jsonGetPropertiesWith atoiNumber fuel p properties = jsonGetProperties fuel p properties) ∧
    (∀ p, jsonGetArrayWith atoiNumber fuel p = jsonGetArray fuel p) ∧
    ∀ p elements, jsonGetElementsWith atoiNumber fuel p elements = jsonGetElements fuel p elements := by
  induction fuel with
  | zero =>
    refine ⟨?_, ?_, ?_, ?_, ?_⟩
    · intro p
      rw [jsonParseWith, jsonParse]
    · intro p
      rw [jsonGetObjectWith, jsonGetObject]
    · intro p properties
      rw [jsonGetPropertiesWith, jsonGetProperties]
    · intro p
      rw [jsonGetArrayWith, jsonGetArray]
    · intro p elements
      rw [jsonGetElementsWith, jsonGetElements]
  | succ fuel ih =>
    obtain ⟨ihParse, ihObject, ihProperties, ihArray, ihElements⟩ := ih
    have hproperties := funext fun p => funext (ihProperties p)
    have helements := funext fun p => funext (ihElements p)
    refine ⟨?_, ?_, ?_, ?_, ?_⟩
    · intro p
      rewrite [jsonParseWith, jsonParse, funext ihObject, funext ihArray]
      rfl
    · intro p
      rewrite [jsonGetObjectWith, jsonGetObject, hproperties]
      rfl
    · intro p properties
      rewrite [jsonGetPropertiesWith, jsonGetProperties, funext ihParse, hproperties]
      rfl
    · intro p
      rewrite [jsonGetArrayWith, jsonGetArray, helements]
      rfl
    · intro p elements
      rewrite [jsonGetElementsWith, jsonGetElements, funext ihParse, helements]
      rfl

theorem jsonParseWith_atoi (fuel : ℕ) (p : JsonParser) :
    jsonParseWith atoiNumber fuel p = jsonParse fuel p :=
  (values_with_atoi fuel).1 p

/-! What the functions keep -/

def expectedTypes : List JsonTokenType :=
  [.JSON_TOKEN_NUMBER, .JSON_TOKEN_INT64, .JSON_TOKEN_FLOAT, .JSON_TOKEN_STRING,
    .JSON_TOKEN_BOOLEAN, .JSON_TOKEN_NULL, .JSON_TOKEN_OBJECT_START, .JSON_TOKEN_OBJECT_END,
    .JSON_TOKEN_ARRAY_START, .JSON_TOKEN_ARRAY_END, .JSON_TOKEN_COLON, .JSON_TOKEN_COMMA,
    .JSON_TOKEN_EOF]

/-- What the steps keep while the parser goes on, and what they leave when it gives up. -/
structure Keeps (I F : JsonParser → Prop) : Prop where
  lookahead {p p' : JsonParser} {fuel : ℕ} {token : JsonToken} :
    I p → p.jsonLookaheadToken fuel = .ok (token, p') → I p'
  matched {p p' : JsonParser} {fuel : ℕ} {type : JsonTokenType} {token : JsonToken} :
    I p → type ∈ expectedTypes → p.jsonMatchToken fuel type = .ok (token, p') →
      jsonIsTokenUnmatched token = false → I p'
  unmatched {p p' : JsonParser} {fuel : ℕ} {type : JsonTokenType} {token : JsonToken} :
    I p → type ∈ expectedTypes → p.jsonMatchToken fuel type = .ok (token, p') →
      jsonIsTokenUnmatched token = true → F p'
  unexpected {p : JsonParser} (message : List Byte) : I p → F (p.jsonParseFail message)

def Leaves (I F : JsonParser → Prop) {α : Type} (r : Option α × JsonParser) : Prop :=
  match r.1 with
  | some _ => I r.2
  | none => F r.2

/-- A token that was looked at is kept. -/
theorem unreadToken_of_lookahead {p p' : JsonParser} {fuel : ℕ} {token : JsonToken}
    (h : p.jsonLookaheadToken fuel = .ok (token, p')) : p'.unreadToken = some token := by
  unfold jsonLookaheadToken at h
  cases hunread : p.unreadToken with
  | some unread =>
    rw [hunread] at h
    obtain ⟨rfl, rfl⟩ := Prod.mk.inj (Except.ok.inj h)
    exact hunread
  | none =>
    rw [hunread] at h
    obtain ⟨⟨next, q⟩, -, hrun⟩ := Exec.bind_eq_ok.mp h
    obtain ⟨rfl, rfl⟩ := Prod.mk.inj (Except.ok.inj hrun)
    rfl

theorem jsonNextToken_of_unread {p : JsonParser} {fuel : ℕ} {token : JsonToken}
    {r : JsonToken × JsonParser} (hunread : p.unreadToken = some token)
    (h : p.jsonNextToken fuel = .ok r) : r = (token, { p with unreadToken := none }) := by
  cases fuel with
  | zero =>
    rw [jsonNextToken] at h
    cases h
  | succ fuel =>
    rw [jsonNextToken, hunread] at h
    exact (Except.ok.inj h).symm

theorem unmatched_eq_false {token : JsonToken} {type : JsonTokenType} (htype : token.type = type)
    (hne : type ≠ .JSON_TOKEN_UNMATCHED) : jsonIsTokenUnmatched token = false := by
  unfold jsonIsTokenUnmatched
  rw [htype]
  exact decide_eq_false hne

theorem jsonMatchToken_cases {p p' : JsonParser} {fuel : ℕ} {type : JsonTokenType}
    {token : JsonToken} (h : p.jsonMatchToken fuel type = .ok (token, p')) :
    (token.type = type ∧ p.jsonNextToken fuel = .ok (token, p')) ∨
      ∃ next q, p.jsonNextToken fuel = .ok (next, q) ∧ jsonIsTokenUnmatched token = true ∧
        p' = q.jsonParseFail (unmatchedMessage type next) := by
  unfold jsonMatchToken at h
  obtain ⟨⟨next, q⟩, hnext, hrun⟩ := Exec.bind_eq_ok.mp h
  dsimp only at hrun
  by_cases hne : next.type ≠ type
  · right
    rw [if_pos hne] at hrun
    obtain ⟨rfl, rfl⟩ := Prod.mk.inj (Except.ok.inj hrun)
    exact ⟨next, q, hnext, rfl, rfl⟩
  · left
    rw [if_neg hne] at hrun
    obtain ⟨rfl, rfl⟩ := Prod.mk.inj (Except.ok.inj hrun)
    exact ⟨not_not.mp hne, hnext⟩

theorem matched_of_lookahead {p p₁ p' : JsonParser} {fuel fuel' : ℕ} {lookahead token : JsonToken}
    {type : JsonTokenType} (hlook : p.jsonLookaheadToken fuel = .ok (lookahead, p₁))
    (htype : lookahead.type = type) (hne : type ≠ .JSON_TOKEN_UNMATCHED)
    (h : p₁.jsonMatchToken fuel' type = .ok (token, p')) : jsonIsTokenUnmatched token = false := by
  have hunread := unreadToken_of_lookahead hlook
  rcases jsonMatchToken_cases h with ⟨htoken, -⟩ | ⟨next, q, hnext, -, -⟩
  · exact unmatched_eq_false htoken hne
  · have hsame := jsonNextToken_of_unread hunread hnext
    obtain ⟨rfl, rfl⟩ := Prod.mk.inj hsame
    unfold jsonMatchToken at h
    rw [hnext, Exec.ok_bind] at h
    dsimp only at h
    rw [if_neg (not_not.mpr htype)] at h
    obtain ⟨rfl, rfl⟩ := Prod.mk.inj (Except.ok.inj h)
    exact unmatched_eq_false htype hne

section Kept

variable {I F : JsonParser → Prop} (keeps : Keeps I F)
include keeps

theorem Keeps.scalar {p : JsonParser} {fuel : ℕ} {type : JsonTokenType}
    {scalar : CString → Exec JsonScalar} (h : I p) (htype : type ∈ expectedTypes) :
    (p.jsonGetScalar fuel type scalar).Returns (Leaves I F) := by
  intro r hr
  unfold jsonGetScalar at hr
  obtain ⟨⟨token, p'⟩, hmatch, hr⟩ := Exec.bind_eq_ok.mp hr
  dsimp only at hr
  cases hunmatched : jsonIsTokenUnmatched token with
  | true =>
    rw [hunmatched, if_pos rfl] at hr
    cases hr
    exact keeps.unmatched h htype hmatch hunmatched
  | false =>
    rw [hunmatched, if_neg Bool.false_ne_true] at hr
    obtain ⟨s, -, hr⟩ := Exec.bind_eq_ok.mp hr
    cases hr
    exact keeps.matched h htype hmatch hunmatched

/-- The closing bracket of an object or an array. -/
theorem Keeps.closing {p : JsonParser} {fuel : ℕ} {type : JsonTokenType} {json : Json} (h : I p)
    (htype : type ∈ expectedTypes) :
    (p.jsonMatchToken fuel type >>= fun r => if jsonIsTokenUnmatched r.1 then return (none, r.2)
      else return (some json, r.2) : Exec (Option Json × JsonParser)).Returns (Leaves I F) := by
  intro r hr
  obtain ⟨⟨token, p'⟩, hmatch, hr⟩ := Exec.bind_eq_ok.mp hr
  dsimp only at hr
  cases hunmatched : jsonIsTokenUnmatched token with
  | true =>
    rw [hunmatched, if_pos rfl] at hr
    cases hr
    exact keeps.unmatched h htype hmatch hunmatched
  | false =>
    rw [hunmatched, if_neg Bool.false_ne_true] at hr
    cases hr
    exact keeps.matched h htype hmatch hunmatched

/-- A comma that was looked at is passed. -/
theorem Keeps.comma {α : Type} {p : JsonParser} {fuel : ℕ} (h : I p)
    {next : JsonParser → Exec (Option α × JsonParser)} {done : α}
    (hnext : ∀ p', I p' → (next p').Returns (Leaves I F)) :
    (do let (lookahead, p) ← p.jsonLookaheadToken fuel
        if lookahead.type = .JSON_TOKEN_COMMA then
          let (_, p) ← p.jsonMatchToken fuel .JSON_TOKEN_COMMA
          next p
        else return (some done, p) : Exec (Option α × JsonParser)).Returns (Leaves I F) := by
  intro r hr
  obtain ⟨⟨lookahead, p₁⟩, hlook, hr⟩ := Exec.bind_eq_ok.mp hr
  have h₁ := keeps.lookahead h hlook
  dsimp only at hr
  by_cases hcomma : lookahead.type = .JSON_TOKEN_COMMA
  · rw [if_pos hcomma] at hr
    obtain ⟨⟨token, p₂⟩, hmatch, hr⟩ := Exec.bind_eq_ok.mp hr
    have hmatched := matched_of_lookahead hlook hcomma (by decide) hmatch
    exact hnext p₂ (keeps.matched h₁ (by decide) hmatch hmatched) r hr
  · rw [if_neg hcomma] at hr
    cases hr
    exact h₁

/-- By induction on the fuel: every function leaves what the steps keep. -/
theorem Keeps.values (number : CString → Exec JsonScalar) (fuel : ℕ) :
    (∀ p, I p → (jsonParseWith number fuel p).Returns (Leaves I F)) ∧
    (∀ p, I p → (jsonGetObjectWith number fuel p).Returns (Leaves I F)) ∧
    (∀ p properties, I p →
      (jsonGetPropertiesWith number fuel p properties).Returns (Leaves I F)) ∧
    (∀ p, I p → (jsonGetArrayWith number fuel p).Returns (Leaves I F)) ∧
    ∀ p elements, I p → (jsonGetElementsWith number fuel p elements).Returns (Leaves I F) := by
  induction fuel with
  | zero =>
    refine ⟨?_, ?_, ?_, ?_, ?_⟩
    all_goals
      intros
      intro r hr
      cases hr
  | succ fuel ih =>
    obtain ⟨ihParse, ihObject, ihProperties, ihArray, ihElements⟩ := ih
    refine ⟨?_, ?_, ?_, ?_, ?_⟩
    · intro p h r hr
      rw [jsonParseWith] at hr
      obtain ⟨⟨lookahead, p₁⟩, hlook, hr⟩ := Exec.bind_eq_ok.mp hr
      have h₁ := keeps.lookahead h hlook
      dsimp only at hr
      split at hr
      · exact keeps.scalar h₁ (by decide) r hr
      · exact keeps.scalar h₁ (by decide) r hr
      · exact keeps.scalar h₁ (by decide) r hr
      · exact keeps.scalar h₁ (by decide) r hr
      · exact keeps.scalar h₁ (by decide) r hr
      · exact keeps.scalar h₁ (by decide) r hr
      · exact ihObject p₁ h₁ r hr
      · exact ihArray p₁ h₁ r hr
      · cases hr
        exact keeps.unexpected _ h₁
    · intro p h r hr
      rw [jsonGetObjectWith] at hr
      obtain ⟨⟨token, p₁⟩, hmatch, hr⟩ := Exec.bind_eq_ok.mp hr
      dsimp only at hr
      cases hunmatched : jsonIsTokenUnmatched token with
      | true =>
        rw [hunmatched, if_pos rfl] at hr
        cases hr
        exact keeps.unmatched h (by decide) hmatch hunmatched
      | false =>
        rw [hunmatched, if_neg Bool.false_ne_true] at hr
        have h₁ := keeps.matched h (by decide) hmatch hunmatched
        obtain ⟨⟨properties, p₂⟩, hproperties, hr⟩ := Exec.bind_eq_ok.mp hr
        have h₂ := ihProperties p₁ [] h₁ _ hproperties
        cases properties with
        | none =>
          cases hr
          exact h₂
        | some properties => exact keeps.closing h₂ (by decide) r hr
    · intro p properties h r hr
      rw [jsonGetPropertiesWith] at hr
      obtain ⟨⟨lookahead, p₁⟩, hlook, hr⟩ := Exec.bind_eq_ok.mp hr
      have h₁ := keeps.lookahead h hlook
      dsimp only at hr
      by_cases hstring : lookahead.type = .JSON_TOKEN_STRING
      · rw [if_pos hstring] at hr
        obtain ⟨⟨keyToken, p₂⟩, hkey, hr⟩ := Exec.bind_eq_ok.mp hr
        have hmatched := matched_of_lookahead hlook hstring (by decide) hkey
        have h₂ := keeps.matched h₁ (by decide) hkey hmatched
        dsimp only at hr
        obtain ⟨⟨colonToken, p₃⟩, hcolon, hr⟩ := Exec.bind_eq_ok.mp hr
        dsimp only at hr
        cases hunmatched : jsonIsTokenUnmatched colonToken with
        | true =>
          rw [hunmatched, if_pos rfl] at hr
          cases hr
          exact keeps.unmatched h₂ (by decide) hcolon hunmatched
        | false =>
          rw [hunmatched, if_neg Bool.false_ne_true] at hr
          have h₃ := keeps.matched h₂ (by decide) hcolon hunmatched
          obtain ⟨⟨value, p₄⟩, hvalue, hr⟩ := Exec.bind_eq_ok.mp hr
          have h₄ := ihParse p₃ h₃ _ hvalue
          cases value with
          | none =>
            cases hr
            exact h₄
          | some value => exact keeps.comma h₄ (fun p' h' => ihProperties p' _ h') r hr
      · rw [if_neg hstring] at hr
        cases hr
        exact h₁
    · intro p h r hr
      rw [jsonGetArrayWith] at hr
      obtain ⟨⟨token, p₁⟩, hmatch, hr⟩ := Exec.bind_eq_ok.mp hr
      dsimp only at hr
      cases hunmatched : jsonIsTokenUnmatched token with
      | true =>
        rw [hunmatched, if_pos rfl] at hr
        cases hr
        exact keeps.unmatched h (by decide) hmatch hunmatched
      | false =>
        rw [hunmatched, if_neg Bool.false_ne_true] at hr
        have h₁ := keeps.matched h (by decide) hmatch hunmatched
        obtain ⟨⟨elements, p₂⟩, helements, hr⟩ := Exec.bind_eq_ok.mp hr
        have h₂ := ihElements p₁ [] h₁ _ helements
        cases elements with
        | none =>
          cases hr
          exact h₂
        | some elements => exact keeps.closing h₂ (by decide) r hr
    · intro p elements h r hr
      rw [jsonGetElementsWith] at hr
      obtain ⟨⟨lookahead, p₁⟩, hlook, hr⟩ := Exec.bind_eq_ok.mp hr
      have h₁ := keeps.lookahead h hlook
      dsimp only at hr
      by_cases hmore : lookahead.type ≠ .JSON_TOKEN_ARRAY_END
      · rw [if_pos hmore] at hr
        obtain ⟨⟨element, p₂⟩, helement, hr⟩ := Exec.bind_eq_ok.mp hr
        have h₂ := ihParse p₁ h₁ _ helement
        cases element with
        | none =>
          cases hr
          exact h₂
        | some element => exact keeps.comma h₂ (fun p' h' => ihElements p' _ h') r hr
      · rw [if_neg hmore] at hr
        cases hr
        exact h₁

end Kept

end JsonParser
end ZoweCommon
