import ZoweCommon.Json.GrammarParsed
import ZoweCommon.Jwt.Verified

/-! The times in the claims of a token, and when they make it valid. -/
namespace ZoweCommon
namespace JsonWebToken

open CString

/-- The current time is that of the clock, in seconds of the Unix epoch. -/
def jwtAreBasicClaimsValid (jwt : Jwt) (currentTime : BitVec 64) (audience : Option CString) : Bool :=
  if jwt.expirationTime = 0 then false
  else if ¬(jwt.notBefore.toInt ≤ currentTime.toInt ∧
      currentTime.toInt < jwt.expirationTime.toInt) then false
  else if currentTime.toInt < jwt.issuedAt.toInt then false
  else match audience with
    | none => true
    | some audience => decide (jwt.audience = some audience)

/-! The times in a text -/

def timeClaim (claims : List (CString × JsonValue)) (name : String) : Option ℤ :=
  match claims.reverse.find? fun p => p.1 = ofBytes (ascii name) with
  | some (_, .number z) => some z
  | _ => none

/-- A time is absent or a number of 64 bits. -/
def HasTime (claims : List (CString × JsonValue)) (name : String) : Prop :=
  ∀ p ∈ claims, p.1 = ofBytes (ascii name) → ∃ z, p.2 = .number z ∧ -2 ^ 63 ≤ z ∧ z < 2 ^ 63

structure InWindow (claims : List (CString × JsonValue)) (now : ℤ) : Prop where
  expires : ∃ exp, timeClaim claims "exp" = some exp ∧ now < exp
  notBefore : (timeClaim claims "nbf").getD 0 ≤ now
  issuedAt : (timeClaim claims "iat").getD 0 ≤ now

/-- Reading the claims has a meaning, and what is read is valid when the text says so. -/
def WindowIsExact (convert : List Byte → Option (List Byte)) (jsonText : List Byte) (header : JwsHeader)
    (claims : List (CString × JsonValue)) (currentTime : BitVec 64) : Prop :=
  ∃ n, ∀ fuel ≥ n, ∃ r, readClaims convert fuel jsonText (emptyJwt header) = .ok r ∧
    ∀ jwt, r = .ok jwt → (jwtAreBasicClaimsValid jwt currentTime none = true ↔
      InWindow claims currentTime.toInt)

theorem jwtAreBasicClaimsValid_iff (jwt : Jwt) (currentTime : BitVec 64) :
    jwtAreBasicClaimsValid jwt currentTime none = true ↔ jwt.expirationTime ≠ 0 ∧
      jwt.notBefore.toInt ≤ currentTime.toInt ∧ currentTime.toInt < jwt.expirationTime.toInt ∧
      jwt.issuedAt.toInt ≤ currentTime.toInt := by
  unfold jwtAreBasicClaimsValid
  by_cases hzero : jwt.expirationTime = 0
  · rw [if_pos hzero]
    exact ⟨fun h => absurd h Bool.false_ne_true, fun h => absurd hzero h.1⟩
  · rw [if_neg hzero]
    by_cases hwindow : jwt.notBefore.toInt ≤ currentTime.toInt ∧
        currentTime.toInt < jwt.expirationTime.toInt
    · rw [if_neg (not_not_intro hwindow)]
      by_cases hissued : currentTime.toInt < jwt.issuedAt.toInt
      · rw [if_pos hissued]
        exact ⟨fun h => absurd h Bool.false_ne_true, fun h => absurd h.2.2.2 (not_le.mpr hissued)⟩
      · rw [if_neg hissued]
        exact ⟨fun _ => ⟨hzero, hwindow.1, hwindow.2, not_lt.mp hissued⟩, fun _ => rfl⟩
    · rw [if_pos hwindow]
      exact ⟨fun h => absurd h Bool.false_ne_true, fun h => absurd ⟨h.2.1, h.2.2.1⟩ hwindow⟩

/-! What is read from a text -/

theorem lookup_toProperties (claims : List (CString × JsonValue)) (key : CString) :
    Json.lookup (JsonValue.toProperties claims).reverse key =
      (claims.reverse.find? fun p => p.1 = key).map fun p => p.2.toJson := by
  have hmap : JsonValue.toProperties claims = claims.map fun p => (p.1, p.2.toJson) := by
    induction claims with
    | nil => rfl
    | cons p claims ih =>
      obtain ⟨name, value⟩ := p
      rw [JsonValue.toProperties, ih]
      rfl
  unfold Json.lookup
  rw [hmap, ← List.map_reverse, List.find?_map, Option.map_map]
  rfl

theorem toInt_signExtend {z : ℤ} (hlo : -2 ^ 31 ≤ z) (hhi : z < 2 ^ 31) :
    ((BitVec.ofInt 32 z).signExtend 64).toInt = z := by
  rw [BitVec.toInt_signExtend_of_le (by decide), BitVec.toInt_ofInt, Int.bmod_eq_of_le]
  · omega
  · omega

theorem toInt_numberClaim {claims : List (CString × JsonValue)} {name : String}
    (hfits : (JsonValue.object claims).FitsInt) (htime : HasTime claims name) :
    (numberClaim (JsonValue.toProperties claims) name).toInt = (timeClaim claims name).getD 0 := by
  unfold numberClaim timeClaim
  rw [lookup_toProperties]
  cases hfind : claims.reverse.find? fun p => p.1 = ofBytes (ascii name) with
  | none => rfl
  | some p =>
    have hmem := List.mem_reverse.mp (List.mem_of_find?_eq_some hfind)
    have hkey := List.find?_some hfind
    obtain ⟨key, value⟩ := p
    obtain ⟨z, hz, -⟩ := htime _ hmem (by simpa using hkey)
    have hint := JsonValue.fitsInt_object.mp hfits _ hmem
    dsimp only at hz hint
    subst hz
    rw [JsonValue.fitsInt_number] at hint
    exact toInt_signExtend hint.1 hint.2

theorem readClaims_document {convert : List Byte → Option (List Byte)} {jsonText text : List Byte}
    {claims : List (CString × JsonValue)} {fuel : ℕ} (hlength : 2 * jsonText.length < 2 ^ 31)
    (hconvert : convert jsonText = some text) (htext : SpellsDocument text (.object claims))
    (hfuel : 4 * text.length + 6 ≤ fuel) (jwt : Jwt) :
    ((JsonValue.object claims).FitsInt → readClaims convert fuel jsonText jwt =
      .ok (.ok ((JsonValue.toProperties claims).foldl readClaim jwt))) ∧
    (¬(JsonValue.object claims).FitsInt →
      readClaims convert fuel jsonText jwt = .error .undefinedBehaviour) := by
  obtain ⟨hok, hfault⟩ := jsonParseUnterminatedString_document htext hfuel
  unfold readClaims jsonParseUnterminatedUtf8String
  rw [if_neg (not_le.mpr hlength), hconvert]
  dsimp only
  constructor
  · intro hfits
    rw [hok hfits]
    rfl
  · intro hfits
    rw [hfault hfits]
    rfl

/-- What the code makes of the times, if all numbers are read. -/
theorem valid_foldl_iff {claims : List (CString × JsonValue)}
    (hfits : (JsonValue.object claims).FitsInt) (hexp : HasTime claims "exp")
    (hnbf : HasTime claims "nbf") (hiat : HasTime claims "iat") (header : JwsHeader)
    (currentTime : BitVec 64) :
    jwtAreBasicClaimsValid ((JsonValue.toProperties claims).foldl readClaim (emptyJwt header))
        currentTime none = true ↔
      timeClaim claims "exp" ≠ some 0 ∧ InWindow claims currentTime.toInt := by
  have hzero (b : BitVec 64) : b ≠ 0 ↔ b.toInt ≠ 0 := by
    rw [ne_eq, ne_eq, ← BitVec.toInt_inj]
    rfl
  rw [jwtAreBasicClaimsValid_iff, hzero, expirationTime_foldl, notBefore_foldl, issuedAt_foldl,
    toInt_numberClaim hfits hexp, toInt_numberClaim hfits hnbf, toInt_numberClaim hfits hiat]
  cases htime : timeClaim claims "exp" with
  | none =>
    constructor
    · exact fun h => absurd rfl h.1
    · rintro ⟨-, ⟨exp, hexp, -⟩, -, -⟩
      rw [htime] at hexp
      exact absurd hexp (by simp)
  | some exp =>
    rw [Option.getD_some]
    constructor
    · rintro ⟨hne, hbefore, hexpires, hissued⟩
      exact ⟨by simpa using hne, ⟨exp, htime, hexpires⟩, hbefore, hissued⟩
    · rintro ⟨hne, ⟨exp', hexp', hexpires⟩, hbefore, hissued⟩
      rw [htime, Option.some_inj] at hexp'
      subst hexp'
      exact ⟨by simpa using hne, hbefore, hexpires, hissued⟩

/-- Reading the claims has no meaning if a number, of whichever claim, is no `int`. -/
theorem WindowIsExact.fitsInt {convert : List Byte → Option (List Byte)} {jsonText text : List Byte}
    {claims : List (CString × JsonValue)} {header : JwsHeader} {currentTime : BitVec 64}
    (h : WindowIsExact convert jsonText header claims currentTime)
    (hconvert : convert jsonText = some text) (htext : SpellsDocument text (.object claims)) :
    2 * jsonText.length < 2 ^ 31 ∧ (JsonValue.object claims).FitsInt := by
  obtain ⟨n, hrun⟩ := h
  obtain ⟨r, hr, -⟩ := hrun (max n (4 * text.length + 6)) (le_max_left _ _)
  have hlength : 2 * jsonText.length < 2 ^ 31 := by
    by_contra hlong
    unfold readClaims jsonParseUnterminatedUtf8String at hr
    rw [if_pos (not_lt.mp hlong)] at hr
    cases hr
  refine ⟨hlength, ?_⟩
  by_contra hnot
  rw [(readClaims_document hlength hconvert htext (le_max_right n _) (emptyJwt header)).2 hnot] at hr
  cases hr

/-- The times are those of the text if every number is an `int`, unless the token has expired at the
epoch and the clock is before it. -/
theorem windowIsExact_iff {convert : List Byte → Option (List Byte)} {jsonText text : List Byte}
    {claims : List (CString × JsonValue)} (hconvert : convert jsonText = some text)
    (htext : SpellsDocument text (.object claims)) (hexp : HasTime claims "exp")
    (hnbf : HasTime claims "nbf") (hiat : HasTime claims "iat") (header : JwsHeader)
    (currentTime : BitVec 64) :
    WindowIsExact convert jsonText header claims currentTime ↔
      2 * jsonText.length < 2 ^ 31 ∧ (JsonValue.object claims).FitsInt ∧
        ¬(timeClaim claims "exp" = some 0 ∧ InWindow claims currentTime.toInt) := by
  constructor
  · intro hexact
    obtain ⟨hlength, hfits⟩ := hexact.fitsInt hconvert htext
    refine ⟨hlength, hfits, fun h => ?_⟩
    obtain ⟨n, hrun⟩ := hexact
    obtain ⟨r, hr, hvalid⟩ := hrun (max n (4 * text.length + 6)) (le_max_left _ _)
    rw [(readClaims_document hlength hconvert htext (le_max_right n _) _).1 hfits] at hr
    have hiff := hvalid _ (Except.ok.inj hr).symm
    rw [valid_foldl_iff hfits hexp hnbf hiat] at hiff
    exact (hiff.mpr h.2).1 h.1
  · rintro ⟨hlength, hfits, hzero⟩
    refine ⟨4 * text.length + 6, fun fuel hfuel => ?_⟩
    obtain ⟨hok, -⟩ := readClaims_document hlength hconvert htext hfuel (emptyJwt header)
    refine ⟨_, hok hfits, fun jwt hjwt => ?_⟩
    rw [← Except.ok.inj hjwt, valid_foldl_iff hfits hexp hnbf hiat]
    exact ⟨fun h => h.2, fun h => ⟨fun h0 => hzero ⟨h0, h⟩, h⟩⟩

theorem spellsDocument_exp (n : ℕ) : SpellsDocument
    (ascii "\x7b\"exp\":" ++ (numeral false n ++ ascii "\x7d"))
    (.object [(ofBytes (ascii "exp"), .number n)]) where
  noNul := by
    apply NoNul.append (by decide)
    apply NoNul.append ?_ (by decide)
    exact CLibrary.noNul_decimal n
  spelled := by
    have hspace : IsSpace [] := List.forall_mem_nil _
    have hname : JsonTokenizer.Decodes (ascii "exp") (ascii "exp") :=
      .plain (by decide) (by decide) (by decide) (.plain (by decide) (by decide) (by decide)
        (.plain (by decide) (by decide) (by decide) .nil))
    have hproperty := SpellsProperty.mk hspace hname (by decide) hspace hspace (.number false n) hspace
    refine ⟨[], _, [], ?_, hspace, hspace, .object (.single hproperty)⟩
    simp only [List.nil_append, List.append_nil, List.append_assoc]
    rfl

theorem hasTime_exp {n : ℕ} (hn : n < 2 ^ 63) (key : CString) (name : String) :
    HasTime [(key, .number n)] name := by
  intro p hp _
  rw [List.mem_singleton.mp hp]
  exact ⟨n, rfl, by omega, by omega⟩

/-- Claims that expire at 2000 are read at 1000. -/
theorem windowIsExact_expiring : WindowIsExact some
    (ascii "\x7b\"exp\":" ++ (numeral false 2000 ++ ascii "\x7d")) ⟨.HS256, none⟩
    [(ofBytes (ascii "exp"), .number 2000)] 1000 := by
  apply (windowIsExact_iff rfl (spellsDocument_exp 2000) (hasTime_exp (by decide) _ _)
    (hasTime_exp (by decide) _ _) (hasTime_exp (by decide) _ _) ⟨.HS256, none⟩ 1000).mpr
  refine ⟨?_, ?_, ?_⟩
  · decide
  · exact .object (by simpa using .number (by decide) (by decide))
  · exact fun h => absurd h.1 (by decide)

/-- Claims that expire in the year 2038, in the first second that is no `int`. -/
theorem not_windowIsExact : ¬WindowIsExact some
    (ascii "\x7b\"exp\":" ++ (numeral false 2147483648 ++ ascii "\x7d")) ⟨.HS256, none⟩
    [(ofBytes (ascii "exp"), .number 2147483648)] 1000 := by
  intro h
  have hfits := (h.fitsInt rfl (spellsDocument_exp 2147483648)).2
  have hexp := JsonValue.fitsInt_object.mp hfits _ (List.mem_singleton_self _)
  exact absurd (JsonValue.fitsInt_number.mp hexp).2 (by decide)

end JsonWebToken
end ZoweCommon
