import ZoweCommon.Jwt.Parts

/-! When a token that is accepted is the text that was signed. -/
namespace ZoweCommon
namespace JsonWebToken

open CString

theorem extractParts_intercalate {parts : List (List Byte)} (hne : parts ≠ [])
    (hlength : parts.length ≤ MAX_NPARTS) (hparts : ∀ part ∈ parts, Base64url.IsText part) :
    extractParts ([ASCII_PERIOD].intercalate parts) =
      .ok (parts.length, parts.map Base64url.decode) := by
  have hroom := findParts_intercalate
    (fun part hpart => ⟨(hparts part hpart).ne_nil, fun c hc => (isText_char (hparts part hpart) hc).2⟩)
    (show parts.length ≤ MAX_NPARTS + 1 by omega)
  have hfound := hroom.length_eq
  rw [List.length_map] at hfound
  have hfoundNe : findParts (MAX_NPARTS + 1) ([ASCII_PERIOD].intercalate parts) ≠ [] := by
    rw [← List.length_pos_iff, ← hfound]
    exact List.length_pos_iff.mpr hne
  unfold extractParts
  dsimp only
  rw [if_neg (by omega), if_neg hfoundNe, decodeParts_valid hroom hparts]
  simp

theorem extractParts_cases {text : List Byte} (hnoNul : NoNul text) :
    ((∀ c ∈ text, c = ASCII_PERIOD) ∧ extractParts text = .error .undefinedBehaviour) ∨
    ((∃ c ∈ text, c ≠ ASCII_PERIOD) ∧ ∃ n parts, extractParts text = .ok (n, parts) ∧ 1 ≤ n) := by
  by_cases hall : ∀ c ∈ text, c = ASCII_PERIOD
  · left
    have hfound : findParts (MAX_NPARTS + 1) text = [] := by
      match hfound : strtok_r text with
      | none => rw [findParts, hfound]
      | some s =>
        obtain ⟨hsuffix, c, t, rfl, hc⟩ := strtok_r_eq_some hfound
        exact absurd (hall c (hsuffix.subset List.mem_cons_self)) hc
    refine ⟨hall, ?_⟩
    unfold extractParts
    rw [hfound]
    rfl
  · right
    refine ⟨by simpa using hall, ?_⟩
    have hfound : findParts (MAX_NPARTS + 1) text ≠ [] := by
      match hfound : strtok_r text with
      | none => exact absurd (strtok_r_eq_none hfound) hall
      | some s =>
        rw [findParts, hfound]
        exact List.cons_ne_nil _ _
    unfold extractParts
    dsimp only
    by_cases hextra : MAX_NPARTS < (findParts (MAX_NPARTS + 1) text).length
    · rw [if_pos hextra]
      exact ⟨_, _, rfl, by decide⟩
    · rw [if_neg hextra, if_neg hfound]
      apply decodeParts_ok
      · intro memory hmemory
        obtain ⟨s, hs, rfl⟩ := List.mem_map.mp hmemory
        exact findParts_room _ hnoNul s hs
      · right
        simpa using hfound

/-! What a token should be -/

/-- No more than three parts, of which each is base64url and none is empty. -/
structure WellFormed (text : List Byte) : Prop where
  length : (text.splitOn ASCII_PERIOD).length ≤ 3
  parts : ∀ part ∈ text.splitOn ASCII_PERIOD, Base64url.IsText part

instance (text : List Byte) : Decidable (WellFormed text) :=
  decidable_of_iff ((text.splitOn ASCII_PERIOD).length ≤ 3 ∧
      ∀ part ∈ text.splitOn ASCII_PERIOD, Base64url.IsText part)
    ⟨fun ⟨h₁, h₂⟩ => ⟨h₁, h₂⟩, fun ⟨h₁, h₂⟩ => ⟨h₁, h₂⟩⟩

/-- Three parts with a period between each two. -/
structure IsToken (text H C S : List Byte) : Prop where
  text_eq : text = H ++ ASCII_PERIOD :: (C ++ ASCII_PERIOD :: S)
  header : Base64url.IsText H
  claims : Base64url.IsText C
  signature : Base64url.IsText S

/-- The value that is parsed from a text in UTF-8. -/
def IsJson (convert : List Byte → Option (List Byte)) (text : List Byte) (json : Json) : Prop :=
  ∃ fuel buffer, convert text = some buffer ∧
    jsonParseUnterminatedString fuel buffer = .ok (.ok json)

def stringClaim (claims : List (CString × Json)) (name : String) : Option CString :=
  (Json.lookup claims.reverse (ofBytes (ascii name))).bind jsonAsString

def numberClaim (claims : List (CString × Json)) (name : String) : BitVec 64 :=
  ((Json.lookup claims.reverse (ofBytes (ascii name))).map
    fun value => (jsonAsNumber value).signExtend 64).getD 0

def standardClaims : List (List Byte) :=
  [ascii "aud", ascii "exp", ascii "iat", ascii "iss", ascii "jti", ascii "nbf", ascii "sub"]

/-- A token with the algorithm, the key and the claims of two objects. -/
structure ReadFrom (jwt : Jwt) (header claims : List (CString × Json)) : Prop where
  algorithm : Json.lookup header (ofBytes (ascii "alg")) =
    some (.scalar (.string (ofBytes jwt.header.algorithm.name)))
  keyId : Json.lookup header (ofBytes (ascii "kid")) =
    jwt.header.keyId.map fun keyId => .scalar (.string keyId)
  issuer : jwt.issuer = stringClaim claims "iss"
  subject : jwt.subject = stringClaim claims "sub"
  audience : jwt.audience = stringClaim claims "aud"
  expirationTime : jwt.expirationTime = numberClaim claims "exp"
  notBefore : jwt.notBefore = numberClaim claims "nbf"
  issuedAt : jwt.issuedAt = numberClaim claims "iat"
  jwtId : jwt.jwtId = numberClaim claims "jti"
  customClaims : jwt.customClaims = claims.filter fun p => p.1.bytes ∉ standardClaims

/-- The signature is the code of the message, padded or cut to its length. -/
def IsHmac (hashLen : ℕ) (hmac : Option (List Byte) → Option (List Byte))
    (message signature : List Byte) : Prop :=
  ∃ mac, hmac (some message) = some mac ∧
    signature = (mac ++ List.replicate hashLen 0).take hashLen

def JwtContext.Accepts (self : JwtContext) (algorithm : JwsAlgorithm)
    (message signature : List Byte) : Prop :=
  match self, algorithm with
  | .custom check, algorithm => check algorithm signature (some message) = RC_JWT_OK
  | .pkcs11 key, .RS256 => key.rs_icsfp11_RS256_verify (some message) signature = true
  | .pkcs11 key, .HS256 =>
    IsHmac ICSFP11_SHA256_HASHLEN key.rs_icsfp11_hmacSHA256 message signature
  | .pkcs11 key, .HS384 =>
    IsHmac ICSFP11_SHA384_HASHLEN key.rs_icsfp11_hmacSHA384 message signature
  | .pkcs11 key, .HS512 =>
    IsHmac ICSFP11_SHA512_HASHLEN key.rs_icsfp11_hmacSHA512 message signature
  | .pkcs11 _, _ => False

/-- A context made for a key, or with a check that accepts no missing signature. -/
def JwtContext.Careful : JwtContext → Prop
  | .pkcs11 _ => True
  | .custom check => ∀ algorithm message, check algorithm [] message ≠ RC_JWT_OK

/-- The token is in the text, and the signature in the text is that of its first two parts. -/
def Verified (convert : List Byte → Option (List Byte)) (self : JwtContext) (text : List Byte)
    (jwt : Jwt) : Prop :=
  ∃ H C S header claims, IsToken text H C S ∧
    IsJson convert (Base64url.decode H) (.object header) ∧
    IsJson convert (Base64url.decode C) (.object claims) ∧ ReadFrom jwt header claims ∧
    self.Accepts jwt.header.algorithm (H ++ ASCII_PERIOD :: C) (Base64url.decode S)

/-- Whatever the context, a text has a meaning, is verified when it is accepted, and gives no token
when it is malformed. -/
def ParsesSoundly (convert : List Byte → Option (List Byte)) (text : CString) : Prop :=
  ∀ self : JwtContext, self.Careful → ∀ ebcdic fuel,
    jwtParse convert fuel text ebcdic self ≠ .error .undefinedBehaviour ∧
    ∀ rc jwt, jwtParse convert fuel text ebcdic self = .ok (rc, some jwt) →
      (rc = RC_JWT_OK → Verified convert self text.bytes jwt) ∧ WellFormed text.bytes

/-! What a text is read as -/

def Reads (convert : List Byte → Option (List Byte)) (text : CString) (header : JwsHeader) : Prop :=
  ∃ fuel nparts parts jwt, extractParts text.bytes = .ok (nparts, parts) ∧ 2 ≤ nparts ∧
    readHeader convert fuel (parts.getD 0 []) = .ok (.ok header) ∧
    readClaims convert fuel (parts.getD 1 []) (emptyJwt header) = .ok (.ok jwt)

/-- The text is no longer than an `int` can tell, has a part, and its numbers fit as well. -/
structure HasMeaning (convert : List Byte → Option (List Byte)) (text : CString) : Prop where
  length : text.strlen + BASE64URL_EXTRA_BYTES_TOTAL + 1 < 2 ^ 31
  part : ∃ c ∈ text.bytes, c ≠ ASCII_PERIOD
  header : ∀ fuel nparts parts, extractParts text.bytes = .ok (nparts, parts) →
    readHeader convert fuel (parts.getD 0 []) ≠ .error .undefinedBehaviour
  claims : ∀ fuel nparts parts header, extractParts text.bytes = .ok (nparts, parts) → 2 ≤ nparts →
    readHeader convert fuel (parts.getD 0 []) = .ok (.ok header) →
    readClaims convert fuel (parts.getD 1 []) (emptyJwt header) ≠ .error .undefinedBehaviour

section jwtParse

variable {convert : List Byte → Option (List Byte)} {fuel : ℕ} {text : CString} {self : JwtContext}

theorem jwtParse_eq {nparts : ℤ} {parts : List (List Byte)} {header : JwsHeader} {jwt : Jwt}
    (hlength : text.strlen + BASE64URL_EXTRA_BYTES_TOTAL + 1 < 2 ^ 31)
    (hparts : extractParts text.bytes = .ok (nparts, parts)) (hnparts : 2 ≤ nparts)
    (hheader : readHeader convert fuel (parts.getD 0 []) = .ok (.ok header))
    (hclaims : readClaims convert fuel (parts.getD 1 []) (emptyJwt header) = .ok (.ok jwt)) {rc : ℤ}
    (hrc : self.checkSignatureFn header.algorithm (parts.getD 2 [])
      (signedText nparts text.bytes) = rc) :
    jwtParse convert fuel text false self =
      .ok (rc, if rc = RC_JWT_OK ∨ rc = RC_JWT_INSECURE then some jwt else none) := by
  unfold jwtParse
  rw [if_neg (by omega), if_neg Bool.false_ne_true, hparts]
  simp only [Exec.ok_bind, Exec.pure_eq_ok]
  rw [if_neg (by omega), if_neg (by omega), hheader]
  simp only [Exec.ok_bind]
  rw [if_neg (by omega), hclaims]
  simp only [Exec.ok_bind, hrc]
  by_cases hok : rc = RC_JWT_OK ∨ rc = RC_JWT_INSECURE
  · rw [if_neg (by tauto), if_pos hok]
  · rw [if_pos (not_or.mp hok), if_neg hok]

theorem jwtParse_delivers {ebcdic : Bool} {rc : ℤ} {jwt : Jwt}
    (h : jwtParse convert fuel text ebcdic self = .ok (rc, some jwt)) :
    ∃ nparts parts header, extractParts text.bytes = .ok (nparts, parts) ∧ 2 ≤ nparts ∧
      readHeader convert fuel (parts.getD 0 []) = .ok (.ok header) ∧
      readClaims convert fuel (parts.getD 1 []) (emptyJwt header) = .ok (.ok jwt) ∧
      self.checkSignatureFn header.algorithm (parts.getD 2 [])
        (signedText nparts text.bytes) = rc := by
  unfold jwtParse at h
  by_cases hlength : 2 ^ 31 ≤ text.strlen + BASE64URL_EXTRA_BYTES_TOTAL + 1
  · rw [if_pos hlength] at h
    cases h
  rw [if_neg hlength] at h
  cases ebcdic with
  | true => simp at h
  | false =>
    rw [if_neg Bool.false_ne_true] at h
    obtain ⟨⟨nparts, parts⟩, hparts, h⟩ := Exec.bind_eq_ok.mp h
    dsimp only at h
    split_ifs at h with hneg hmissing hnparts
    · cases h
    · cases h
    · obtain ⟨header | header, hheader, h⟩ := Exec.bind_eq_ok.mp h
      · cases h
      · cases h
    obtain ⟨header | header, hheader, h⟩ := Exec.bind_eq_ok.mp h
    · cases h
    dsimp only at h
    obtain ⟨claims | claims, hclaims, h⟩ := Exec.bind_eq_ok.mp h
    · cases h
    dsimp only at h
    split_ifs at h with hrc
    · cases h
    · cases h
      exact ⟨nparts, parts, header, hparts, by omega, hheader, hclaims, rfl⟩

end jwtParse

/-! What the header and the claims say -/

theorem eq_ofBytes_ascii {s : CString} {name : String} (h : NoNul (ascii name)) :
    s = ofBytes (ascii name) ↔ s.bytes = ascii name := by
  rw [CString.ext_iff, ofBytes_of_noNul h]

/-- Of a field that one claim sets, the last such claim is what is left. -/
theorem foldl_readClaim {α : Type} {f : Jwt → α} {g : Json → α} {name : String}
    (hname : NoNul (ascii name))
    (hstep : ∀ jwt p, f (readClaim jwt p) = if p.1.bytes = ascii name then g p.2 else f jwt)
    (claims : List (CString × Json)) (jwt : Jwt) : f (claims.foldl readClaim jwt) =
      ((Json.lookup claims.reverse (ofBytes (ascii name))).map g).getD (f jwt) := by
  induction claims using List.reverseRecOn with
  | nil => rfl
  | append_singleton claims p ih =>
    rw [List.foldl_append, List.foldl_cons, List.foldl_nil, hstep, List.reverse_append,
      List.reverse_singleton, List.singleton_append]
    unfold Json.lookup at ih ⊢
    rw [List.find?_cons]
    by_cases hp : p.1.bytes = ascii name
    · rw [if_pos hp, decide_eq_true ((eq_ofBytes_ascii hname).mpr hp)]
      rfl
    · rw [if_neg hp, decide_eq_false (fun h => hp ((eq_ofBytes_ascii hname).mp h))]
      exact ih

theorem foldl_readClaim_string {f : Jwt → Option CString} {name : String}
    (hname : NoNul (ascii name)) (hstep : ∀ jwt p, f (readClaim jwt p) =
      if p.1.bytes = ascii name then jsonAsString p.2 else f jwt)
    (claims : List (CString × Json)) {jwt : Jwt} (hjwt : f jwt = none) :
    f (claims.foldl readClaim jwt) = stringClaim claims name := by
  rw [foldl_readClaim hname hstep, hjwt]
  unfold stringClaim
  cases Json.lookup claims.reverse (ofBytes (ascii name)) with
  | none => rfl
  | some value => rfl

theorem foldl_readClaim_number {f : Jwt → BitVec 64} {name : String}
    (hname : NoNul (ascii name)) (hstep : ∀ jwt p, f (readClaim jwt p) =
      if p.1.bytes = ascii name then (jsonAsNumber p.2).signExtend 64 else f jwt)
    (claims : List (CString × Json)) {jwt : Jwt} (hjwt : f jwt = 0) :
    f (claims.foldl readClaim jwt) = numberClaim claims name := by
  rw [foldl_readClaim (g := fun value => (jsonAsNumber value).signExtend 64) hname hstep, hjwt]
  rfl

theorem readClaim_customClaims (jwt : Jwt) (p : CString × Json) :
    (readClaim jwt p).customClaims =
      jwt.customClaims ++ [p].filter fun p => p.1.bytes ∉ standardClaims := by
  unfold readClaim standardClaims
  split_ifs with haud hexp hiat hiss hjti hnbf hsub
  · simp [haud]
  · simp [hexp]
  · simp [hiat]
  · simp [hiss]
  · simp [hjti]
  · simp [hnbf]
  · simp [hsub]
  · simp [haud, hexp, hiat, hiss, hjti, hnbf, hsub]

theorem foldl_readClaim_customClaims (claims : List (CString × Json)) (jwt : Jwt) :
    (claims.foldl readClaim jwt).customClaims =
      jwt.customClaims ++ claims.filter fun p => p.1.bytes ∉ standardClaims := by
  induction claims generalizing jwt with
  | nil => exact (List.append_nil _).symm
  | cons p claims ih =>
    rw [List.foldl_cons, ih, readClaim_customClaims, List.append_assoc, ← List.filter_append,
      List.singleton_append]

theorem readClaim_header (jwt : Jwt) (p : CString × Json) : (readClaim jwt p).header = jwt.header := by
  unfold readClaim
  split_ifs <;> rfl

theorem foldl_readClaim_header (claims : List (CString × Json)) (jwt : Jwt) :
    (claims.foldl readClaim jwt).header = jwt.header := by
  induction claims generalizing jwt with
  | nil => rfl
  | cons p claims ih => rw [List.foldl_cons, ih, readClaim_header]

theorem jsonStringProperty_eq_some {obj : List (CString × Json)} {key s : CString}
    {status : JsonPropertyStatus} (h : jsonStringProperty obj key = (some s, status)) :
    Json.lookup obj key = some (.scalar (.string s)) := by
  unfold jsonStringProperty at h
  split at h
  · cases h
  · next hlookup =>
    rw [hlookup]
    cases h
    rfl
  · cases h

theorem jsonStringProperty_expected {obj : List (CString × Json)} {key : CString}
    (h : (jsonStringProperty obj key).2 ≠ .JSON_PROPERTY_UNEXPECTED_TYPE) :
    Json.lookup obj key = (jsonStringProperty obj key).1.map fun s => .scalar (.string s) := by
  unfold jsonStringProperty at h ⊢
  split at h
  · next hlookup =>
    rw [hlookup]
    rfl
  · next hlookup =>
    rw [hlookup]
    rfl
  · exact absurd rfl h

section readers

variable {convert : List Byte → Option (List Byte)} {fuel : ℕ} {jsonText : List Byte}

theorem isJson_of_parse {json : Json}
    (h : jsonParseUnterminatedUtf8String convert fuel jsonText = .ok (some json)) :
    IsJson convert jsonText json := by
  unfold jsonParseUnterminatedUtf8String at h
  by_cases hlength : 2 ^ 31 ≤ 2 * jsonText.length
  · rw [if_pos hlength] at h
    cases h
  · rw [if_neg hlength] at h
    cases hconvert : convert jsonText with
    | none =>
      rw [hconvert] at h
      cases h
    | some buffer =>
      rw [hconvert] at h
      obtain ⟨result, hparse, h⟩ := Exec.bind_eq_ok.mp h
      cases result with
      | error message => cases h
      | ok value =>
        cases h
        exact ⟨fuel, buffer, hconvert, hparse⟩

theorem readHeader_ok {header : JwsHeader} (h : readHeader convert fuel jsonText = .ok (.ok header)) :
    ∃ obj, IsJson convert jsonText (.object obj) ∧
      Json.lookup obj (ofBytes (ascii "alg")) =
        some (.scalar (.string (ofBytes header.algorithm.name))) ∧
      Json.lookup obj (ofBytes (ascii "kid")) =
        header.keyId.map fun keyId => .scalar (.string keyId) := by
  unfold readHeader at h
  obtain ⟨json, hparse, h⟩ := Exec.bind_eq_ok.mp h
  match json, hparse, h with
  | some (.object obj), hparse, h =>
    refine ⟨obj, isJson_of_parse hparse, ?_⟩
    dsimp only at h
    rcases halg : jsonStringProperty obj (ofBytes (ascii "alg")) with ⟨inputAlg | inputAlg, status⟩
    · rw [halg] at h
      cases h
    · rw [halg] at h
      dsimp only at h
      cases hfind : JwsAlgorithm.all.find? (fun algorithm => algorithm.name = inputAlg.bytes) with
      | none =>
        rw [hfind] at h
        cases h
      | some algorithm =>
        rw [hfind] at h
        dsimp only at h
        split_ifs at h with hstatus
        · cases h
        · cases h
          have hname : algorithm.name = inputAlg.bytes := by simpa using List.find?_some hfind
          rw [jsonStringProperty_eq_some halg, jsonStringProperty_expected hstatus, hname,
            ofBytes_bytes]
          exact ⟨rfl, rfl⟩

theorem readClaims_ok {header : JwsHeader} {jwt : Jwt}
    (h : readClaims convert fuel jsonText (emptyJwt header) = .ok (.ok jwt)) :
    ∃ obj, IsJson convert jsonText (.object obj) ∧ jwt = obj.foldl readClaim (emptyJwt header) := by
  unfold readClaims at h
  obtain ⟨json, hparse, h⟩ := Exec.bind_eq_ok.mp h
  match json, hparse, h with
  | some (.object obj), hparse, h =>
    cases h
    exact ⟨obj, isJson_of_parse hparse, rfl⟩

end readers

theorem expirationTime_foldl (header : JwsHeader) (claims : List (CString × Json)) :
    (claims.foldl readClaim (emptyJwt header)).expirationTime = numberClaim claims "exp" := by
  apply foldl_readClaim_number (f := Jwt.expirationTime) (by decide) ?_ claims rfl
  intro jwt p
  unfold readClaim
  split_ifs <;> simp_all +decide

theorem notBefore_foldl (header : JwsHeader) (claims : List (CString × Json)) :
    (claims.foldl readClaim (emptyJwt header)).notBefore = numberClaim claims "nbf" := by
  apply foldl_readClaim_number (f := Jwt.notBefore) (by decide) ?_ claims rfl
  intro jwt p
  unfold readClaim
  split_ifs <;> simp_all +decide

theorem issuedAt_foldl (header : JwsHeader) (claims : List (CString × Json)) :
    (claims.foldl readClaim (emptyJwt header)).issuedAt = numberClaim claims "iat" := by
  apply foldl_readClaim_number (f := Jwt.issuedAt) (by decide) ?_ claims rfl
  intro jwt p
  unfold readClaim
  split_ifs <;> simp_all +decide

/-- A token is filled with what its two objects say. -/
theorem readFrom_foldl {header : JwsHeader} {obj : List (CString × Json)}
    (halg : Json.lookup obj (ofBytes (ascii "alg")) =
      some (.scalar (.string (ofBytes header.algorithm.name))))
    (hkid : Json.lookup obj (ofBytes (ascii "kid")) =
      header.keyId.map fun keyId => .scalar (.string keyId)) (claims : List (CString × Json)) :
    ReadFrom (claims.foldl readClaim (emptyJwt header)) obj claims where
  algorithm := by rw [foldl_readClaim_header, halg, emptyJwt]
  keyId := by rw [foldl_readClaim_header, hkid, emptyJwt]
  issuer := by
    apply foldl_readClaim_string (f := Jwt.issuer) (by decide) ?_ claims rfl
    intro jwt p
    unfold readClaim
    split_ifs <;> simp_all +decide
  subject := by
    apply foldl_readClaim_string (f := Jwt.subject) (by decide) ?_ claims rfl
    intro jwt p
    unfold readClaim
    split_ifs <;> simp_all +decide
  audience := by
    apply foldl_readClaim_string (f := Jwt.audience) (by decide) ?_ claims rfl
    intro jwt p
    unfold readClaim
    split_ifs <;> simp_all +decide
  expirationTime := expirationTime_foldl header claims
  notBefore := notBefore_foldl header claims
  issuedAt := issuedAt_foldl header claims
  jwtId := by
    apply foldl_readClaim_number (f := Jwt.jwtId) (by decide) ?_ claims rfl
    intro jwt p
    unfold readClaim
    split_ifs <;> simp_all +decide
  customClaims := by
    rw [foldl_readClaim_customClaims]
    rfl

/-! The signature -/

theorem checkHmac_ok {hashLen : ℕ} {hmac : Option (List Byte) → Option (List Byte)}
    {message signature : List Byte}
    (h : checkHmac hashLen hmac signature (some message) = RC_JWT_OK) :
    IsHmac hashLen hmac message signature := by
  unfold checkHmac at h
  split_ifs at h with hlength
  · exact absurd h (by decide)
  · cases hmac' : hmac (some message) with
    | none =>
      have hfailed : RC_JWT_CRYPTO_ERROR ≠ RC_JWT_OK := by decide
      rw [hmac'] at h
      exact absurd h hfailed
    | some mac =>
      rw [hmac'] at h
      dsimp only at h
      split_ifs at h with hequal
      · exact absurd h (by decide)
      · exact ⟨mac, hmac', not_not.mp hequal⟩

theorem checkHmac_missing {hashLen : ℕ} (h : hashLen ≠ 0)
    (hmac : Option (List Byte) → Option (List Byte)) (message : Option (List Byte)) :
    checkHmac hashLen hmac [] message ≠ RC_JWT_OK := by
  unfold checkHmac
  rw [if_pos (by rw [List.length_nil]; exact Ne.symm h)]
  decide

theorem accepts_of_ok {self : JwtContext} {algorithm : JwsAlgorithm} {message signature : List Byte}
    (h : self.checkSignatureFn algorithm signature (some message) = RC_JWT_OK) :
    self.Accepts algorithm message signature := by
  cases self with
  | custom check => exact h
  | pkcs11 key =>
    have hunsupported : RC_JWT_UNSUPPORTED_ALG ≠ RC_JWT_OK := by decide
    change checkSignature algorithm signature (some message) key = RC_JWT_OK at h
    unfold checkSignature at h
    cases algorithm with
    | none =>
      dsimp only at h
      split_ifs at h
      · exact absurd h (by decide)
      · exact absurd h (by decide)
    | RS256 =>
      dsimp only at h
      split_ifs at h with hverify
      · exact hverify
      · exact absurd h (by decide)
    | HS256 => exact checkHmac_ok h
    | HS384 => exact checkHmac_ok h
    | HS512 => exact checkHmac_ok h
    | _ => exact absurd h hunsupported

theorem rs256_of_missing {self : JwtContext} (hcareful : self.Careful) {algorithm : JwsAlgorithm}
    {message : Option (List Byte)} (h : self.checkSignatureFn algorithm [] message = RC_JWT_OK) :
    algorithm = .RS256 := by
  cases self with
  | custom check => exact absurd h (hcareful algorithm message)
  | pkcs11 key =>
    have hunsupported : RC_JWT_UNSUPPORTED_ALG ≠ RC_JWT_OK := by decide
    have hinsecure : RC_JWT_INSECURE ≠ RC_JWT_OK := by decide
    change checkSignature algorithm [] message key = RC_JWT_OK at h
    unfold checkSignature at h
    cases algorithm with
    | RS256 => rfl
    | HS256 => exact absurd h (checkHmac_missing (by decide) _ _)
    | HS384 => exact absurd h (checkHmac_missing (by decide) _ _)
    | HS512 => exact absurd h (checkHmac_missing (by decide) _ _)
    | none => exact absurd h hinsecure
    | _ => exact absurd h hunsupported

/-! The text up to the signature -/

theorem prefixLength_append (dots : ℕ) {part : List Byte} (h : ∀ c ∈ part, c ≠ ASCII_PERIOD)
    (s : List Byte) :
    prefixLength (dots + 1) (part ++ ASCII_PERIOD :: s) = part.length + 1 + prefixLength dots s := by
  induction part with
  | nil =>
    rw [List.nil_append, prefixLength, if_pos rfl, List.length_nil]
    omega
  | cons c part ih =>
    rw [List.cons_append, prefixLength, if_neg (h c List.mem_cons_self),
      ih fun d hd => h d (List.mem_cons_of_mem _ hd), List.length_cons]
    omega

theorem IsToken.signedText {text H C S : List Byte} (h : IsToken text H C S) :
    signedText 3 text = some (H ++ ASCII_PERIOD :: C) := by
  have hH := prefixLength_append 1 (fun c hc => (isText_char h.header hc).2)
    (C ++ ASCII_PERIOD :: S)
  have hC := prefixLength_append 0 (fun c hc => (isText_char h.claims hc).2) S
  have hlength : prefixLength 2 text - 1 = (H ++ ASCII_PERIOD :: C).length := by
    rw [h.text_eq, hH, hC, prefixLength, List.length_append, List.length_cons]
    omega
  have hsplit : text = (H ++ ASCII_PERIOD :: C) ++ ASCII_PERIOD :: S := by
    rw [h.text_eq, List.append_assoc, List.cons_append]
  unfold JsonWebToken.signedText
  rw [if_pos rfl, hlength]
  conv_lhs => rw [hsplit, List.take_left]

theorem IsToken.splitOn {text H C S : List Byte} (h : IsToken text H C S) :
    text.splitOn ASCII_PERIOD = [H, C, S] := by
  have htext : text = [ASCII_PERIOD].intercalate [H, C, S] := by
    rw [h.text_eq, List.intercalate_cons_cons, List.intercalate_cons_cons,
      List.intercalate_singleton]
    simp
  have hmem : ∀ part ∈ [H, C, S], ASCII_PERIOD ∉ part := by
    intro part hpart hperiod
    have htexts : Base64url.IsText part := by
      simp only [List.mem_cons, List.not_mem_nil, or_false] at hpart
      rcases hpart with rfl | rfl | rfl
      · exact h.header
      · exact h.claims
      · exact h.signature
    exact (isText_char htexts hperiod).2 rfl
  rw [htext, List.splitOn_intercalate _ hmem (List.cons_ne_nil _ _)]

/-- The first two parts are what is read, and the third, if there is one, what is checked. -/
theorem WellFormed.cases {text : List Byte} (h : WellFormed text) {nparts : ℤ}
    {parts : List (List Byte)} (hparts : extractParts text = .ok (nparts, parts))
    (hnparts : 2 ≤ nparts) : parts.getD 2 [] = [] ∧ (text.splitOn ASCII_PERIOD).length ≠ 3 ∨
      ∃ H C S, IsToken text H C S ∧ nparts = 3 ∧
        parts = [Base64url.decode H, Base64url.decode C, Base64url.decode S] := by
  have htext : List.intercalate [ASCII_PERIOD] (text.splitOn ASCII_PERIOD) = text :=
    List.intercalate_splitOn ASCII_PERIOD
  have hlength := h.length
  have htexts := h.parts
  match hsplit : text.splitOn ASCII_PERIOD with
  | [] =>
    rw [hsplit, List.intercalate_nil] at htext
    rw [← htext] at hparts
    cases hparts
  | [H] =>
    rw [hsplit] at htext htexts hlength
    rw [← htext, extractParts_intercalate (by simp) hlength htexts] at hparts
    cases hparts
    exact absurd hnparts (by simp)
  | [H, C] =>
    rw [hsplit] at htext htexts hlength
    rw [← htext, extractParts_intercalate (by simp) hlength htexts] at hparts
    cases hparts
    exact Or.inl ⟨rfl, by simp⟩
  | [H, C, S] =>
    rw [hsplit] at htext htexts hlength
    rw [← htext, extractParts_intercalate (by simp) hlength htexts] at hparts
    cases hparts
    refine Or.inr ⟨H, C, S, ⟨?_, ?_, ?_, ?_⟩, rfl, rfl⟩
    · rw [← htext, List.intercalate_cons_cons, List.intercalate_cons_cons,
        List.intercalate_singleton]
      simp
    · exact htexts H (by simp)
    · exact htexts C (by simp)
    · exact htexts S (by simp)
  | _ :: _ :: _ :: _ :: _ =>
    rw [hsplit] at hlength
    simp only [List.length_cons] at hlength
    omega

/-- What can be read at all is well formed, and has a signature if the algorithm is the one for
which a missing signature is verified. -/
structure ReadsWell (convert : List Byte → Option (List Byte)) (text : CString) : Prop where
  meaning : HasMeaning convert text
  wellFormed : ∀ header, Reads convert text header → WellFormed text.bytes
  signed : ∀ header, Reads convert text header → header.algorithm = .RS256 →
    (text.bytes.splitOn ASCII_PERIOD).length = 3

section ParsesSoundly

variable {convert : List Byte → Option (List Byte)} {text : CString}

theorem HasMeaning.jwtParse (h : HasMeaning convert text) (fuel : ℕ) (ebcdic : Bool)
    (self : JwtContext) : jwtParse convert fuel text ebcdic self ≠ .error .undefinedBehaviour := by
  intro hfault
  have hlength := h.length
  unfold JsonWebToken.jwtParse at hfault
  rw [if_neg (by omega)] at hfault
  cases ebcdic with
  | true => cases hfault
  | false =>
    rw [if_neg Bool.false_ne_true] at hfault
    rcases Exec.bind_eq_error_iff.mp hfault with hparts | ⟨⟨nparts, parts⟩, hparts, hfault⟩
    · rcases extractParts_cases text.noNul with ⟨hall, -⟩ | ⟨-, nparts, parts, hok, -⟩
      · obtain ⟨c, hc, hne⟩ := h.part
        exact hne (hall c hc)
      · rw [hok] at hparts
        cases hparts
    dsimp only at hfault
    split_ifs at hfault with hneg hmissing hnparts
    · cases hfault
    · cases hfault
    · rcases Exec.bind_eq_error_iff.mp hfault with hheader | ⟨header | header, -, hfault⟩
      · exact h.header fuel nparts parts hparts hheader
      · cases hfault
      · cases hfault
    rcases Exec.bind_eq_error_iff.mp hfault with hheader | ⟨header | header, hheader, hfault⟩
    · exact h.header fuel nparts parts hparts hheader
    · cases hfault
    rcases Exec.bind_eq_error_iff.mp hfault with hclaims | ⟨claims | claims, -, hfault⟩
    · exact h.claims fuel nparts parts header hparts (by omega) hheader hclaims
    · cases hfault
    dsimp only at hfault
    split_ifs at hfault
    · cases hfault
    · cases hfault

theorem ReadsWell.parsesSoundly (h : ReadsWell convert text) : ParsesSoundly convert text := by
  intro self hcareful ebcdic fuel
  refine ⟨h.meaning.jwtParse fuel ebcdic self, ?_⟩
  intro rc jwt hrun
  obtain ⟨nparts, parts, header, hparts, hnparts, hheader, hclaims, hrc⟩ := jwtParse_delivers hrun
  have hreads : Reads convert text header :=
    ⟨fuel, nparts, parts, jwt, hparts, hnparts, hheader, hclaims⟩
  have hwellFormed := h.wellFormed header hreads
  refine ⟨?_, hwellFormed⟩
  rintro rfl
  rcases hwellFormed.cases hparts hnparts with ⟨hmissing, hlength⟩ | ⟨H, C, S, htoken, rfl, rfl⟩
  · rw [hmissing] at hrc
    exact absurd (h.signed header hreads (rs256_of_missing hcareful hrc)) hlength
  · obtain ⟨obj, hobj, halg, hkid⟩ := readHeader_ok hheader
    obtain ⟨claims, hjson, rfl⟩ := readClaims_ok hclaims
    refine ⟨H, C, S, obj, claims, htoken, hobj, hjson, readFrom_foldl halg hkid claims, ?_⟩
    rw [foldl_readClaim_header]
    rw [htoken.signedText] at hrc
    exact accepts_of_ok hrc

/-- A context that tells no more than whether there is a signature. -/
def lenient : JwtContext :=
  .custom fun _ signature _ => if signature = [] then RC_JWT_INSECURE else RC_JWT_OK

theorem careful_lenient : lenient.Careful := by
  intro algorithm message
  have hinsecure : RC_JWT_INSECURE ≠ RC_JWT_OK := by decide
  exact hinsecure

theorem ParsesSoundly.hasMeaning (h : ParsesSoundly convert text) : HasMeaning convert text := by
  have hrun (fuel : ℕ) := (h lenient careful_lenient false fuel).1
  have hlength : text.strlen + BASE64URL_EXTRA_BYTES_TOTAL + 1 < 2 ^ 31 := by
    by_contra hlength
    apply hrun 0
    unfold jwtParse
    rw [if_pos (not_lt.mp hlength)]
    rfl
  have hpart : ∃ c ∈ text.bytes, c ≠ ASCII_PERIOD := by
    rcases extractParts_cases text.noNul with ⟨-, hfault⟩ | ⟨hpart, -⟩
    · refine absurd ?_ (hrun 0)
      unfold jwtParse
      rw [if_neg (by omega), hfault]
      rfl
    · exact hpart
  have hsome {nparts : ℤ} {parts : List (List Byte)}
      (hparts : extractParts text.bytes = .ok (nparts, parts)) : 1 ≤ nparts := by
    rcases extractParts_cases text.noNul with ⟨-, hfault⟩ | ⟨-, n, ps, hok, hn⟩
    · rw [hfault] at hparts
      cases hparts
    · rw [hok] at hparts
      cases hparts
      exact hn
  refine ⟨hlength, hpart, ?_, ?_⟩
  · intro fuel nparts parts hparts hheader
    have hn := hsome hparts
    apply hrun fuel
    unfold jwtParse
    rw [if_neg (by omega), if_neg Bool.false_ne_true, hparts]
    simp only [Exec.ok_bind]
    rw [if_neg (by omega), if_neg (by omega), hheader]
    rfl
  · intro fuel nparts parts header hparts hnparts hheader hclaims
    apply hrun fuel
    unfold jwtParse
    rw [if_neg (by omega), if_neg Bool.false_ne_true, hparts]
    simp only [Exec.ok_bind]
    rw [if_neg (by omega), if_neg (by omega), hheader]
    simp only [Exec.ok_bind]
    rw [if_neg (by omega), hclaims]
    rfl

/-- A key with which everything is verified, also what is missing. -/
def gullible : KeyHandle where
  rs_icsfp11_hmacSHA256 _ := none
  rs_icsfp11_hmacSHA384 _ := none
  rs_icsfp11_hmacSHA512 _ := none
  rs_icsfp11_RS256_verify _ _ := true
  rs_icsfp11_RS256_sign _ := none

theorem ParsesSoundly.readsWell (h : ParsesSoundly convert text) : ReadsWell convert text := by
  have hmeaning := h.hasMeaning
  refine ⟨hmeaning, ?_, ?_⟩
  · rintro header ⟨fuel, nparts, parts, jwt, hparts, hnparts, hheader, hclaims⟩
    have hparse := @jwtParse_eq _ _ _ lenient _ _ _ _ hmeaning.length hparts hnparts hheader hclaims _ rfl
    have hrc : lenient.checkSignatureFn header.algorithm (parts.getD 2 [])
        (signedText nparts text.bytes) = RC_JWT_OK ∨
      lenient.checkSignatureFn header.algorithm (parts.getD 2 [])
        (signedText nparts text.bytes) = RC_JWT_INSECURE := by
      change (if _ then RC_JWT_INSECURE else RC_JWT_OK) = RC_JWT_OK ∨ _
      change _ ∨ (if _ then RC_JWT_INSECURE else RC_JWT_OK) = RC_JWT_INSECURE
      split_ifs
      · exact Or.inr rfl
      · exact Or.inl rfl
    rw [if_pos hrc] at hparse
    exact ((h lenient careful_lenient false fuel).2 _ jwt hparse).2
  · rintro header ⟨fuel, nparts, parts, jwt, hparts, hnparts, hheader, hclaims⟩ halg
    have hrc : (JwtContext.pkcs11 gullible).checkSignatureFn header.algorithm (parts.getD 2 [])
        (signedText nparts text.bytes) = RC_JWT_OK := by
      rw [halg]
      rfl
    have hparse := jwtParse_eq hmeaning.length hparts hnparts hheader hclaims hrc
    rw [if_pos (Or.inl rfl)] at hparse
    obtain ⟨H, C, S, obj, claims, htoken, -⟩ :=
      ((h (.pkcs11 gullible) trivial false fuel).2 _ jwt hparse).1 rfl
    rw [htoken.splitOn]
    rfl

end ParsesSoundly

/-- A text is parsed soundly in every context exactly if it is well formed, or cannot be read. -/
theorem parses_soundly_iff (convert : List Byte → Option (List Byte)) (text : CString) :
    ParsesSoundly convert text ↔ ReadsWell convert text :=
  ⟨fun h => h.readsWell, fun h => h.parsesSoundly⟩

def pickyKey : KeyHandle :=
  { gullible with
    rs_icsfp11_RS256_verify := fun message signature =>
      message = some (ascii "eyJhbGciOiJSUzI1NiJ9.e30") ∧ signature = [0] }

/-- A signed token with another period at its end, so that its fourth part is empty. -/
def fourParts : CString := ofBytes (ascii "eyJhbGciOiJSUzI1NiJ9.e30.AA.")

theorem delivers_fourParts : (match jwtParse some 300 fourParts false (.pkcs11 pickyKey) with
    | .ok (rc, some _) => decide (rc = RC_JWT_OK)
    | _ => false) = true := by
  decide +kernel

theorem jwtParse_fourParts : ∃ jwt,
    jwtParse some 300 fourParts false (.pkcs11 pickyKey) = .ok (RC_JWT_OK, some jwt) := by
  have hdelivers := delivers_fourParts
  split at hdelivers
  · next rc jwt hrun =>
    rw [hrun, of_decide_eq_true hdelivers]
    exact ⟨jwt, rfl⟩
  · exact absurd hdelivers Bool.false_ne_true

theorem not_parses_soundly :
    ¬∀ convert text, ParsesSoundly convert text := by
  intro h
  obtain ⟨jwt, hrun⟩ := jwtParse_fourParts
  have hwellFormed := ((h some fourParts (.pkcs11 pickyKey) trivial false 300).2 _ jwt hrun).2
  have hmalformed : ¬WellFormed fourParts.bytes := by decide +kernel
  exact hmalformed hwellFormed

end JsonWebToken
end ZoweCommon
