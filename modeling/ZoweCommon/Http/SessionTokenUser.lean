import ZoweCommon.Http.SessionTokenChecks

/-! Whose a session token is. -/
namespace ZoweCommon
namespace Http

open CLibrary (formatX isspace)
open Ebcdic (strupcase)
open Utils

/-- A name has no characters that separate cookies. -/
def IsCookieName (name : CString) : Prop :=
  ∀ c ∈ name.bytes, c ≠ SEMICOLON ∧ c ≠ EQUALS ∧ isspace (Ebcdic.toIso88591 c).toInt = false

/-- The session cookie is the first of a header, with or without others after it. -/
def Presented (keyValue cookieText : CString) : Prop :=
  ∃ rest, cookieText.bytes = keyValue.bytes.takeWhile (· ≠ SEMICOLON) ++ rest ∧
    ∀ c ∈ rest.head?, c = SEMICOLON

def authenticate (getGroupList : GetGroupList) (cipher : Cipher) (service : HttpService)
    (now : BitVec 64) (username : Option CString) (cookieText : CString) : Exec TokenCheck := do
  match ← getCookieValue cookieText service.cookieName with
  | none => return refused username
  | some tokenCookieText =>
    sessionTokenStillValid getGroupList cipher service now username tokenCookieText

/-- The user's seconds were found, and are not over. -/
def WithinValidity (getGroupList : GetGroupList) (service : HttpService) (made now : BitVec 64)
    (user : CString) : Prop :=
  (validityOf getGroupList service user.bytes).1 = true ∧
    ((validityOf getGroupList service user.bytes).2 = -1 ∨ made ≤ now ∧
      ((now.toNat - made.toNat : ℕ) : ℤ) ≤
        (validityOf getGroupList service user.bytes).2.toInt * unitsPerSecond)

/-- A token made for a user is accepted for that user while it is valid, and never for another. -/
def TokenNamesUser (cipher : Cipher) (service : HttpService) (made : BitVec 64) (user : CString) :
    Prop :=
  ∃ keyValue?, generateSessionTokenKeyValue cipher service made user = .ok keyValue? ∧
    ∀ keyValue, keyValue? = some keyValue → ∀ getGroupList timeouts now username cookieText,
      Presented keyValue cookieText →
      ∃ check, authenticate getGroupList cipher { service with timeouts } now username cookieText =
          .ok check ∧
        (WithinValidity getGroupList { service with timeouts } made now user →
          check.stillValid = true) ∧
        (check.stillValid = true → check.username = some (strupcase user))

/-- The text fits, and either it has no more than its own colons, or there is no token. -/
structure NameIsField (cipher : Cipher) (service : HttpService) (made : BitVec 64)
    (user : CString) : Prop where
  fits : (tokenPlaintext service made user).length < 528
  colon : COLON ∉ user.bytes ∨
    cipher.icsfEncipher service.sessionTokenKey (tokenPlaintext service made user) = none

section HexText

theorem toASCIIUTF8_hexText (n : BitVec 64) :
    Ebcdic.toASCIIUTF8 (hexText n) = formatX 0 n.toNat := Ebcdic.toASCIIUTF8_map_toIbm1047 _

theorem isHex_hexText (n : BitVec 64) : IsHex (hexText n) := by
  constructor
  · intro hnil
    exact CLibrary.formatX_isNumeral.ne_nil n.toNat (List.map_eq_nil_iff.mp hnil)
  · rw [toASCIIUTF8_hexText]
    exact CLibrary.formatX_isNumeral.digits n.toNat

theorem noNul_hexText (n : BitVec 64) : NoNul (hexText n) := by
  intro b hb
  obtain ⟨c, hc, rfl⟩ := List.mem_map.mp hb
  exact Ebcdic.toIbm1047_ne_zero (CLibrary.noNul_formatX 0 n.toNat c hc)

/-- A number is read as it was written, up to a colon. -/
theorem strtoull16_hexText (n : BitVec 64) {rest : List Byte} (hnul : NoNul rest)
    (hrest : ∀ c ∈ rest.head?, c = COLON) : Ebcdic.strtoull16 (hexText n ++ rest) = n := by
  have hvalue := CLibrary.formatX_isNumeral.value n.toNat
  unfold Ebcdic.strtoull16
  rw [CString.ofBytes_of_noNul ((noNul_hexText n).append hnul), Ebcdic.toASCIIUTF8_append,
    toASCIIUTF8_hexText, CLibrary.strtoull16_numeral, hvalue, BitVec.ofNat_toNat, BitVec.setWidth_eq]
  · exact CLibrary.formatX_isNumeral.ne_nil n.toNat
  · exact CLibrary.formatX_isNumeral.digits n.toNat
  · rw [hvalue]
    exact n.isLt
  · intro b hb
    cases rest with
    | nil => cases hb
    | cons c rest =>
      have hc : c = COLON := hrest c rfl
      have hb : b = Ebcdic.toIso88591 c := (Option.some.inj hb).symm
      rw [hb, hc]
      decide

end HexText

section Cookies

theorem getCookieValue_first {cookieText cookieName : CString} (hname : IsCookieName cookieName)
    {value rest : List Byte} (hvalue : SEMICOLON ∉ value)
    (htext : cookieText.bytes = cookieName.bytes ++ EQUALS :: (value ++ rest))
    (hrest : ∀ c ∈ rest.head?, c = SEMICOLON) :
    getCookieValue cookieText cookieName = .ok (some (.ofBytes value)) := by
  have hpair : SEMICOLON ∉ cookieName.bytes ++ EQUALS :: value := by
    intro hmem
    rcases List.mem_append.mp hmem with hmem | hmem
    · exact (hname SEMICOLON hmem).1 rfl
    · rcases List.mem_cons.mp hmem with hequals | hmem
      · exact absurd hequals (by decide)
      · exact hvalue hmem
  have hfirst : ∃ c more, cookieText.bytes = c :: more ∧
      isspace (Ebcdic.toIso88591 c).toInt = false := by
    rw [htext]
    cases hbytes : cookieName.bytes with
    | nil => exact ⟨EQUALS, value ++ rest, rfl, by decide⟩
    | cons c more =>
      have hc : c ∈ cookieName.bytes := by
        rw [hbytes]
        exact List.mem_cons_self
      exact ⟨c, more ++ EQUALS :: (value ++ rest), rfl, (hname c hc).2.2⟩
  have hsemi : (keyValuePair cookieText 0).1 = cookieName.strlen + 1 + value.length := by
    unfold keyValuePair
    have hassoc : cookieText.bytes = (cookieName.bytes ++ EQUALS :: value) ++ rest := by
      rw [htext, List.append_assoc]
      rfl
    have hlength : (cookieName.bytes ++ EQUALS :: value).length =
        cookieName.strlen + 1 + value.length := by
      rw [List.length_append, List.length_cons]
      unfold CString.strlen
      omega
    cases rest with
    | nil =>
      rw [List.append_nil] at hassoc
      cases hindex : Utils.indexOf cookieText.bytes SEMICOLON 0 with
      | none =>
        unfold CString.strlen at hlength ⊢
        rw [hassoc, hlength]
        rfl
      | some semiPos =>
        obtain ⟨before, after, hsplit, -, -⟩ := indexOf_zero_some hindex
        rw [hassoc] at hsplit
        rw [hsplit] at hpair
        exact absurd (List.mem_append_right _ List.mem_cons_self) hpair
    | cons c rest =>
      have hc : c = SEMICOLON := hrest c rfl
      rw [hassoc, hc, indexOf_append hpair, hlength]
      rfl
  have hequals : Utils.indexOf cookieText.bytes EQUALS 0 = some cookieName.strlen := by
    rw [htext]
    exact indexOf_append (fun hmem => (hname EQUALS hmem).2.1 rfl) _
  have hdrop : cookieText.bytes.drop (cookieName.strlen + 1) = value ++ rest := by
    rw [htext, ← List.drop_drop]
    unfold CString.strlen
    rw [List.drop_left]
    rfl
  obtain ⟨c, more, hbytes, hspace⟩ := hfirst
  have hhead : cookieText.bytes[0]? = some c := by rw [hbytes]; rfl
  unfold getCookieValue
  rw [findCookie, hhead]
  dsimp only
  rw [hspace, if_neg (by simp), hequals]
  dsimp only
  rw [hsemi, List.drop_zero]
  have htake : cookieText.bytes.take (cookieName.strlen - 0) =
      cookieName.bytes.take (cookieName.strlen - 0) := by
    rw [htext]
    unfold CString.strlen
    rw [Nat.sub_zero, List.take_left, List.take_length]
  rw [if_pos htake, if_pos (by omega), hdrop]
  have hcount : 0 + (cookieName.strlen + 1 + value.length) - (cookieName.strlen + 1) = value.length := by
    omega
  rw [hcount, List.take_left]
  rfl

theorem generate_some {cipher : Cipher} {service : HttpService} {made : BitVec 64} {user : CString}
    {result : List Byte} (hfits : (tokenPlaintext service made user).length < 528)
    (hcipher : cipher.icsfEncipher service.sessionTokenKey (tokenPlaintext service made user) =
      some result) :
    ∃ keyValue, generateSessionTokenKeyValue cipher service made user = .ok (some keyValue) ∧
      keyValue.bytes = service.cookieName.bytes ++
        EQUALS :: (Base64.encodeBase64 result ++ cookieProperties) := by
  have hproperties : cookieProperties.length = 35 ∧ NoNul cookieProperties := by decide
  have hnul : NoNul (service.cookieName.bytes ++
      EQUALS :: (Base64.encodeBase64 result ++ cookieProperties)) := by
    apply service.cookieName.noNul.append
    apply NoNul.cons (by decide)
    exact NoNul.append (fun b hb => (Base64.mem_encodeBase64 hb).1) hproperties.2
  refine ⟨.ofBytes (service.cookieName.bytes ++
    EQUALS :: (Base64.encodeBase64 result ++ cookieProperties)), ?_, CString.ofBytes_of_noNul hnul⟩
  unfold generateSessionTokenKeyValue
  dsimp only
  rw [if_neg (by omega), hcipher]
  unfold CLibrary.snprintf
  dsimp only
  rw [List.take_of_length_le]
  · rfl
  · rw [List.length_append, List.length_cons, List.length_append, hproperties.1]
    unfold CString.strlen
    omega

/-- What the checks make of it when it comes back. -/
theorem authenticate_presented {cipher : Cipher} {service : HttpService}
    (hname : IsCookieName service.cookieName) {keyValue cookieText : CString} {result : List Byte}
    (hkeyValue : keyValue.bytes = service.cookieName.bytes ++
      EQUALS :: (Base64.encodeBase64 result ++ cookieProperties))
    (hpresented : Presented keyValue cookieText) (getGroupList : GetGroupList)
    (timeouts : SessionTimeouts) (now : BitVec 64) (username : Option CString) :
    authenticate getGroupList cipher { service with timeouts } now username cookieText =
      sessionTokenStillValid getGroupList cipher { service with timeouts } now username
        (.ofBytes (Base64.encodeBase64 result)) := by
  obtain ⟨rest, htext, hrest⟩ := hpresented
  have hsemi : SEMICOLON ∉ Base64.encodeBase64 result := fun h => (Base64.mem_encodeBase64 h).2 rfl
  have htake : keyValue.bytes.takeWhile (· ≠ SEMICOLON) =
      service.cookieName.bytes ++ EQUALS :: Base64.encodeBase64 result := by
    have hall : ∀ c ∈ service.cookieName.bytes ++ EQUALS :: Base64.encodeBase64 result,
        decide (c ≠ SEMICOLON) = true := by
      intro c hc
      apply decide_eq_true
      rcases List.mem_append.mp hc with hc | hc
      · exact (hname c hc).1
      · rcases List.mem_cons.mp hc with rfl | hc
        · decide
        · rintro rfl
          exact hsemi hc
    have hassoc : keyValue.bytes =
        (service.cookieName.bytes ++ EQUALS :: Base64.encodeBase64 result) ++ cookieProperties := by
      rw [hkeyValue, List.append_assoc]
      rfl
    have hstop : cookieProperties.takeWhile (· ≠ SEMICOLON) = [] := by decide
    rw [hassoc, List.takeWhile_append_of_pos hall, hstop, List.append_nil]
  rw [htake, List.append_assoc] at htext
  have hcookie := getCookieValue_first hname hsemi htext hrest
  unfold authenticate
  rw [hcookie]
  rfl

end Cookies

section Main

variable {cipher : Cipher} {service : HttpService} {made : BitVec 64} {user : CString}
  {result : List Byte}

theorem decode_result (result : List Byte) :
    Base64.decodeBase64 (.ofBytes (Base64.encodeBase64 result)) = .ok (result.length, result) := by
  unfold Base64.decodeBase64
  rw [encodeBase64_bytes, Base64.decodeBase64_encodeBase64]

/-- The cipher gives back the text that was made. -/
theorem decipher_result (hcipher : cipher.Inverts)
    (hresult : cipher.icsfEncipher service.sessionTokenKey (tokenPlaintext service made user) =
      some result) (timeouts : SessionTimeouts) :
    cipher.icsfDecipher ({ service with timeouts } : HttpService).sessionTokenKey result
      result.length = some (tokenPlaintext service made user) :=
  hcipher hresult

/-- As long as the seconds are not over, the token is not too old. -/
theorem not_tooOld_of_within {getGroupList : GetGroupList} {now : BitVec 64} {rest : List Byte}
    (hmade : Ebcdic.strtoull16 rest = made) (h : WithinValidity getGroupList service made now user) :
    ¬TooOld getGroupList service now user.bytes rest := by
  obtain ⟨-, hvalidity⟩ := h
  rintro ⟨hpos, hold⟩
  have hlt := (validityOf getGroupList service user.bytes).2.toInt_lt
  rcases hvalidity with hunlimited | ⟨hle, hage⟩
  · rw [hunlimited] at hpos
    exact absurd hpos (by decide)
  · have hdifference : (now - made).toNat = now.toNat - made.toNat := by
      rw [BitVec.toNat_sub_of_le hle]
    rw [hmade, hdifference] at hold
    unfold unitsPerSecond at hage
    omega

theorem tokenNamesUser_of_nameIsField (hcipher : cipher.Inverts)
    (hname : IsCookieName service.cookieName) (h : NameIsField cipher service made user) :
    TokenNamesUser cipher service made user := by
  cases hresult : cipher.icsfEncipher service.sessionTokenKey (tokenPlaintext service made user) with
  | none =>
    refine ⟨none, ?_, ?_⟩
    · have hfits := h.fits
      unfold generateSessionTokenKeyValue
      dsimp only
      rw [if_neg (by omega), hresult]
      rfl
    · intro keyValue hkeyValue
      cases hkeyValue
  | some result =>
    have huser : COLON ∉ user.bytes := by
      rcases h.colon with huser | hnone
      · exact huser
      · rw [hresult] at hnone
        cases hnone
    obtain ⟨keyValue, hmade, hbytes⟩ := generate_some h.fits hresult
    refine ⟨some keyValue, hmade, ?_⟩
    rintro _ ⟨rfl⟩ getGroupList timeouts now username cookieText hpresented
    have hlen : result.length < 2 ^ 31 := by
      have hsame := cipher.length_encipher hresult
      have hfits := h.fits
      omega
    have htime := colon_notMem_of_isHex (isHex_hexText made)
    have hown : Ebcdic.strtoull16 (hexText service.serverInstanceUID) = service.serverInstanceUID := by
      have hread := @strtoull16_hexText service.serverInstanceUID [] NoNul.nil (by simp)
      rwa [List.append_nil] at hread
    have hread : Ebcdic.strtoull16 (hexText made ++ COLON :: hexText service.serverInstanceUID) = made :=
      strtoull16_hexText made ((noNul_hexText _).cons (by decide))
        (fun c hc => (Option.some.inj hc).symm)
    rw [authenticate_presented hname hbytes hpresented]
    rcases run_cases getGroupList now username (decode_result result) hlen
      (decipher_result hcipher hresult timeouts) with
      ⟨-, hnone⟩ | ⟨user', time', uid', hsplit, huser', htime', hrun⟩
    · exact absurd htime (hnone user.bytes (hexText made) (hexText service.serverInstanceUID) rfl huser)
    · obtain ⟨rfl, hrest⟩ := split_unique hsplit huser huser'
      obtain ⟨rfl, rfl⟩ := split_unique hrest htime htime'
      obtain ⟨hvalid, husername⟩ := @checkFields_cases getGroupList { service with timeouts } now
        username user.bytes (hexText made) (hexText service.serverInstanceUID)
      rw [hsplit] at hrun
      refine ⟨_, hrun, ?_, ?_⟩
      · intro hwithin
        exact hvalid.mpr ⟨hown, not_tooOld_of_within hread hwithin⟩
      · intro haccepted
        refine husername.trans ?_
        rw [if_pos haccepted, CString.ofBytes_bytes]

/-- What comes before the first colon is no more the user. -/
theorem nameIsField_of_tokenNamesUser (hcipher : cipher.Inverts)
    (hname : IsCookieName service.cookieName) (h : TokenNamesUser cipher service made user) :
    NameIsField cipher service made user := by
  obtain ⟨keyValue?, hmade, hall⟩ := h
  have hfits : (tokenPlaintext service made user).length < 528 := by
    by_contra hlong
    unfold generateSessionTokenKeyValue at hmade
    dsimp only at hmade
    rw [if_pos (by omega)] at hmade
    cases hmade
  refine ⟨hfits, ?_⟩
  by_contra hcolon
  obtain ⟨huser, hsome⟩ := not_or.mp hcolon
  rw [not_not] at huser
  obtain ⟨result, hresult⟩ := Option.ne_none_iff_exists'.mp hsome
  obtain ⟨keyValue, hmade', hbytes⟩ := generate_some hfits hresult
  rw [hmade'] at hmade
  have hlen : result.length < 2 ^ 31 := by
    have hsame := cipher.length_encipher hresult
    omega
  let timeouts : SessionTimeouts := ⟨none, none, 3600⟩
  let cookieText : CString := .ofBytes (keyValue.bytes.takeWhile (· ≠ SEMICOLON))
  have hpresented : Presented keyValue cookieText := by
    refine ⟨[], ?_, by simp⟩
    rw [List.append_nil]
    apply CString.ofBytes_of_noNul
    intro b hb
    exact keyValue.noNul b (List.takeWhile_subset _ hb)
  obtain ⟨check, hcheck, hvalid, husername⟩ := hall keyValue (Except.ok.inj hmade).symm
    (fun _ => some []) timeouts made none cookieText hpresented
  have hwithin : WithinValidity (fun _ => some []) { service with timeouts } made made user := by
    constructor
    · rfl
    · right
      constructor
      · exact BitVec.le_refl made
      · rw [Nat.sub_self]
        show (0 : ℤ) ≤ (3600 : BitVec 32).toInt * unitsPerSecond
        decide
  have haccepted := hvalid hwithin
  have hname' := husername haccepted
  rw [authenticate_presented hname hbytes hpresented] at hcheck
  rcases run_cases (fun _ => some []) made none (decode_result result) hlen
    (decipher_result hcipher hresult timeouts) with
    ⟨hrun, -⟩ | ⟨user', time', uid', hsplit, huser', htime', hrun⟩
  · rw [hrun] at hcheck
    rw [← Except.ok.inj hcheck] at haccepted
    cases haccepted
  · rw [hsplit] at hrun
    rw [hrun] at hcheck
    obtain ⟨-, husername'⟩ := @checkFields_cases (fun _ => some []) { service with timeouts } made none
      user' time' uid'
    rw [Except.ok.inj hcheck, if_pos haccepted, hname'] at husername'
    have hsame := congrArg (fun s : CString => s.bytes.length) (Option.some.inj husername')
    have hlt : (CString.ofBytes user').bytes.length < user.bytes.length := by
      have hle : (CString.ofBytes user').bytes.length ≤ user'.length := (List.takeWhile_prefix _).length_le
      have hstarts : user'.length < user.bytes.length := by
        by_contra hlong
        have htake := congrArg (List.take user.bytes.length) hsplit
        unfold tokenPlaintext at htake
        rw [List.take_left, List.take_append_of_le_length (by omega)] at htake
        rw [htake] at huser
        exact huser' (List.mem_of_mem_take huser)
      omega
    have hlength (s : CString) : (strupcase s).bytes.length = s.bytes.length := List.length_map _
    rw [hlength, hlength] at hsame
    omega

/-- Tokens name their users iff the text of the token fits into its buffer and the user has no
colon. -/
theorem session_token_names_user_iff (hcipher : cipher.Inverts)
    (hname : IsCookieName service.cookieName) (made : BitVec 64) (user : CString) :
    TokenNamesUser cipher service made user ↔ NameIsField cipher service made user := by
  constructor
  · exact nameIsField_of_tokenNamesUser hcipher hname
  · exact tokenNamesUser_of_nameIsField hcipher hname

end Main

theorem hourlyService_cookieName : IsCookieName hourlyService.cookieName := by
  unfold IsCookieName
  decide

theorem session_token_names_user_iff_letter :
    TokenNamesUser trivialCipher hourlyService 1 ⟨[0xC1], by decide⟩ ↔
      NameIsField trivialCipher hourlyService 1 ⟨[0xC1], by decide⟩ :=
  session_token_names_user_iff trivialCipher_inverts hourlyService_cookieName 1 _

/-- The user `A:B`. -/
theorem colon_in_username :
    ¬ ∀ cipher : Cipher, cipher.Inverts → ∀ service made user,
      IsCookieName service.cookieName → TokenNamesUser cipher service made user := by
  intro hall
  have hfield := nameIsField_of_tokenNamesUser trivialCipher_inverts hourlyService_cookieName
    (hall trivialCipher trivialCipher_inverts hourlyService 1 ⟨[0xC1, 0x7A, 0xC2], by decide⟩
      hourlyService_cookieName)
  rcases hfield.colon with hcolon | hnone
  · revert hcolon
    decide
  · cases hnone

end Http
end ZoweCommon
