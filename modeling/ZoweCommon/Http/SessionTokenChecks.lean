import ZoweCommon.Http.SessionToken

/-! Which session tokens are accepted. -/
namespace ZoweCommon
namespace Http

open CLibrary (formatX isspace)
open Ebcdic (strupcase)
open Hexadecimal (isDigit)
open Utils

theorem drop_colon (user rest : List Byte) :
    (user ++ COLON :: rest).drop (user.length + 1) = rest := by
  rw [← List.drop_drop, List.drop_left]
  rfl

theorem token_cases (text : List Byte) :
    Utils.indexOf text COLON 0 = none ∨
    (∃ i, Utils.indexOf text COLON 0 = some i ∧ Utils.indexOf text COLON (i + 1) = none) ∨
    ∃ user time uid, text = user ++ COLON :: (time ++ COLON :: uid) ∧ COLON ∉ user ∧ COLON ∉ time := by
  cases hfirst : Utils.indexOf text COLON 0 with
  | none => exact Or.inl rfl
  | some i =>
    right
    obtain ⟨user, rest, rfl, huser, rfl⟩ := indexOf_zero_some hfirst
    have hdrop := drop_colon user rest
    cases hsecond : Utils.indexOf rest COLON 0 with
    | none =>
      left
      refine ⟨_, rfl, ?_⟩
      rw [indexOf_from, hdrop, hsecond]
      rfl
    | some j =>
      right
      obtain ⟨time, uid, rfl, htime, -⟩ := indexOf_zero_some hsecond
      exact ⟨user, time, uid, rfl, huser, htime⟩

/-- A field of a token is a hexadecimal numeral. -/
def IsHex (field : List Byte) : Prop :=
  field ≠ [] ∧ ∀ b ∈ Ebcdic.toASCIIUTF8 field, isDigit b

def hexNumber (field : List Byte) : ℕ := Hexadecimal.value (Ebcdic.toASCIIUTF8 field)

def unitsPerSecond : ℤ := 4096 * 1000000

def validityOf (getGroupList : GetGroupList) (service : HttpService) (user : List Byte) :
    Bool × BitVec 32 :=
  getUserSessionValidity getGroupList service.timeouts (strupcase (.ofBytes user)) 0

/-- A user, a time that is not too long ago, and the id of this server. -/
structure GoodFields (getGroupList : GetGroupList) (service : HttpService) (now : BitVec 64)
    (user time uid : List Byte) : Prop where
  hexTime : IsHex time
  hexUid : IsHex uid
  own : hexNumber uid = service.serverInstanceUID.toNat
  lookup : (validityOf getGroupList service user).1 = true
  age : (validityOf getGroupList service user).2 = -1 ∨
    (now.toNat : ℤ) - hexNumber time ≤ (validityOf getGroupList service user).2.toInt * unitsPerSecond

def Genuine (cipher : Cipher) (getGroupList : GetGroupList) (service : HttpService)
    (now : BitVec 64) (sessionTokenText : CString) : Prop :=
  ∃ data user time uid,
    Base64.decodeBase64 sessionTokenText = .ok (data.length, data) ∧
    cipher.icsfDecipher service.sessionTokenKey data data.length =
      some (user ++ COLON :: (time ++ COLON :: uid)) ∧
    COLON ∉ user ∧ GoodFields getGroupList service now user time uid

/-- Only genuine tokens are accepted, and without one the request's user stays the same. -/
def FailsClosed (cipher : Cipher) (getGroupList : GetGroupList) (service : HttpService)
    (now : BitVec 64) (username : Option CString) (sessionTokenText : CString) : Prop :=
  ∃ check, sessionTokenStillValid getGroupList cipher service now username sessionTokenText =
      .ok check ∧
    if check.stillValid then Genuine cipher getGroupList service now sessionTokenText
    else check.username = username

/-- The time is so far in the future that its distance from now is greater than what the seconds
come to. -/
def TooOld (getGroupList : GetGroupList) (service : HttpService) (now : BitVec 64)
    (user rest : List Byte) : Prop :=
  0 < (validityOf getGroupList service user).2.toInt ∧
    2 ^ 64 - 198967296 * (validityOf getGroupList service user).2.toInt <
      (now - Ebcdic.strtoull16 rest).toNat

/-- The texts and outcomes for which the checks of a token work. -/
structure SoundToken (cipher : Cipher) (getGroupList : GetGroupList) (service : HttpService)
    (now : BitVec 64) (sessionTokenText : CString) : Prop where
  padding : ¬ Base64.BadPadding sessionTokenText.bytes
  undecodable : sessionTokenText.strlen % 4 ≠ 0 →
    cipher.icsfDecipher service.sessionTokenKey [] (2 ^ 32 - 1) = none
  deciphers : ∀ data, Base64.decodeBase64 sessionTokenText = .ok (data.length, data) → data ≠ [] →
    cipher.icsfDecipher service.sessionTokenKey data data.length ≠ none
  fields : ∀ data user time uid, Base64.decodeBase64 sessionTokenText = .ok (data.length, data) →
    cipher.icsfDecipher service.sessionTokenKey data data.length =
      some (user ++ COLON :: (time ++ COLON :: uid)) →
    COLON ∉ user → COLON ∉ time → Ebcdic.strtoull16 uid = service.serverInstanceUID →
    TooOld getGroupList service now user (time ++ COLON :: uid) ∨
      GoodFields getGroupList service now user time uid

section Runs

variable {cipher : Cipher} (getGroupList : GetGroupList) {service : HttpService} (now : BitVec 64)
  (username : Option CString) {sessionTokenText : CString} {data text : List Byte}

/-- What is returned for a token that is not accepted early on. -/
def refused (username : Option CString) : TokenCheck :=
  { stillValid := false, username, sessionValiditySec := 0, sessionTimeRemaining := 0 }

theorem indexOfChecked_some {len : ℤ} (hlen : len = text.length) (c : Byte) (startPos : ℕ) :
    indexOfChecked (some text) len c startPos = .ok (Utils.indexOf text c startPos) := by
  unfold indexOfChecked
  split_ifs with hstart
  · have hnil : text.drop startPos = [] := List.drop_eq_nil_of_le (by omega)
    unfold Utils.indexOf
    rw [hnil]
    rfl
  · rw [hlen, Int.toNat_natCast]
    dsimp only
    rw [List.take_length]
    rfl

theorem decodeSessionToken_some {len : BitVec 32} (hlen : len.toNat < 2 ^ 31)
    (h : cipher.icsfDecipher service.sessionTokenKey data len.toNat = some text) :
    decodeSessionToken cipher service data len = .ok (0, some text) := by
  unfold decodeSessionToken
  rw [h]
  have hroom : len < len + 4 := by
    rw [BitVec.lt_def, BitVec.toNat_add]
    have hfour : (4 : BitVec 32).toNat = 4 := rfl
    omega
  exact if_pos hroom

theorem ofInt_length (h : data.length < 2 ^ 31) :
    (BitVec.ofInt 32 (data.length : ℤ)).toNat = data.length := by
  rw [BitVec.toNat_ofInt]
  omega

/-- A text that does not decode is given to the cipher with an impossible length. -/
theorem run_undecodable (h : Base64.decodeBase64 sessionTokenText = .ok (-1, [])) :
    sessionTokenStillValid getGroupList cipher service now username sessionTokenText =
      if cipher.icsfDecipher service.sessionTokenKey [] (2 ^ 32 - 1) = none then
        .ok (refused username)
      else .error .undefinedBehaviour := by
  have hlen : (BitVec.ofInt 32 (-1)).toNat = 2 ^ 32 - 1 := by decide
  unfold sessionTokenStillValid
  rw [h, Exec.ok_bind]
  unfold decodeSessionToken
  dsimp only
  rw [hlen]
  cases cipher.icsfDecipher service.sessionTokenKey [] (2 ^ 32 - 1) with
  | none => rfl
  | some tokenText => rfl

/-- After a failure of the cipher a null pointer is read, unless there is nothing to read. -/
theorem run_undeciphered (h : Base64.decodeBase64 sessionTokenText = .ok (data.length, data))
    (hlen : data.length < 2 ^ 31)
    (hfail : cipher.icsfDecipher service.sessionTokenKey data data.length = none) :
    sessionTokenStillValid getGroupList cipher service now username sessionTokenText =
      if data = [] then .ok (refused username) else .error .undefinedBehaviour := by
  have htoken : decodeSessionToken cipher service data (BitVec.ofInt 32 data.length) =
      .ok (0, none) := by
    unfold decodeSessionToken
    rw [ofInt_length hlen, hfail]
    rfl
  unfold sessionTokenStillValid
  rw [h, Exec.ok_bind]
  dsimp only
  rw [htoken, Exec.ok_bind]
  cases data with
  | nil => rfl
  | cons b data => rfl

theorem run_deciphered (h : Base64.decodeBase64 sessionTokenText = .ok (data.length, data))
    (hlen : data.length < 2 ^ 31)
    (htext : cipher.icsfDecipher service.sessionTokenKey data data.length = some text) :
    sessionTokenStillValid getGroupList cipher service now username sessionTokenText =
      match Utils.indexOf text COLON 0 with
      | none => .ok (refused username)
      | some colonPos =>
        match Utils.indexOf text COLON (colonPos + 1) with
        | none => .ok (refused username)
        | some colonPos2 =>
          .ok (checkFields getGroupList service now (refused username) text colonPos colonPos2) := by
  have hlength : (data.length : ℤ) = text.length := by
    rw [cipher.length_decipher htext]
  have hint := ofInt_length hlen
  have htoken := @decodeSessionToken_some cipher service data text (BitVec.ofInt 32 data.length)
    (by rw [hint]; exact hlen) (by rw [hint]; exact htext)
  unfold sessionTokenStillValid
  rw [h, Exec.ok_bind]
  dsimp only
  rw [htoken, Exec.ok_bind]
  dsimp only
  rw [if_neg (by simp), indexOfChecked_some hlength, Exec.ok_bind]
  cases Utils.indexOf text COLON 0 with
  | none => rfl
  | some colonPos =>
    dsimp only
    rw [indexOfChecked_some hlength, Exec.ok_bind]
    cases Utils.indexOf text COLON (colonPos + 1) with
    | none => rfl
    | some colonPos2 => rfl

/-- The interval of so many seconds, which comes to all but a few of the values that there are. -/
theorem interval_toNat {v : BitVec 32} (h : 0 < v.toInt) :
    ((v.signExtend 64 * ONE_SECOND.signExtend 64).toNat : ℤ) = 2 ^ 64 - 198967296 * v.toInt := by
  have hlt := v.toInt_lt
  have hv : (v.signExtend 64).toNat = v.toNat := by
    rw [BitVec.toNat_signExtend, BitVec.msb_eq_false_iff_two_mul_lt.mpr]
    · simp [BitVec.toNat_setWidth]
      omega
    · rw [BitVec.toInt_eq_toNat_cond] at h
      split at h <;> omega
  have hnat : v.toInt = v.toNat := by
    rw [BitVec.toInt_eq_toNat_cond] at h ⊢
    split at h
    · next hsmall => rw [if_pos hsmall]
    · omega
  have hsecond : (ONE_SECOND.signExtend 64).toNat = 2 ^ 64 - 198967296 := by decide
  rw [BitVec.toNat_mul, hv, hsecond, hnat]
  omega

theorem checkFields_cases (user time uid : List Byte) :
    let check := checkFields getGroupList service now (refused username)
      (user ++ COLON :: (time ++ COLON :: uid)) user.length (user.length + 1 + time.length)
    (check.stillValid = true ↔ Ebcdic.strtoull16 uid = service.serverInstanceUID ∧
      ¬TooOld getGroupList service now user (time ++ COLON :: uid)) ∧
    check.username = if check.stillValid then some (strupcase (.ofBytes user)) else username := by
  have htime := drop_colon user (time ++ COLON :: uid)
  have huid : (user ++ COLON :: (time ++ COLON :: uid)).drop (user.length + 1 + time.length + 1) =
      uid := by
    rw [Nat.add_assoc, ← List.drop_drop, htime, drop_colon]
  unfold checkFields TooOld validityOf refused
  rw [List.take_left, htime, huid]
  dsimp only
  generalize getUserSessionValidity getGroupList service.timeouts (strupcase (.ofBytes user)) 0 =
    validity
  by_cases hown : Ebcdic.strtoull16 uid = service.serverInstanceUID
  · by_cases hpos : 0 < validity.2.toInt
    · have hinterval := interval_toNat hpos
      have hlt : validity.2.signExtend 64 * ONE_SECOND.signExtend 64 <
          now - Ebcdic.strtoull16 (time ++ COLON :: uid) ↔
          2 ^ 64 - 198967296 * validity.2.toInt <
            (now - Ebcdic.strtoull16 (time ++ COLON :: uid)).toNat := by
        rw [BitVec.lt_def]
        omega
      rw [← hlt]
      by_cases hold : validity.2.signExtend 64 * ONE_SECOND.signExtend 64 <
          now - Ebcdic.strtoull16 (time ++ COLON :: uid)
      · simp only [hown, hpos, hold]
        simp
      · simp only [hown, hpos, hold]
        simp
    · simp [hown, hpos]
  · simp [hown]

theorem colon_notMem_of_isHex {field : List Byte} (h : IsHex field) : COLON ∉ field := by
  intro hmem
  have hdigit := h.2 (Ebcdic.toIso88591 COLON) (List.mem_map_of_mem hmem)
  revert hdigit
  decide

theorem split_unique {a b a' b' : List Byte} (h : a ++ COLON :: b = a' ++ COLON :: b')
    (ha : COLON ∉ a) (ha' : COLON ∉ a') : a = a' ∧ b = b' := by
  have hindex := indexOf_append ha b
  rw [h, indexOf_append ha' b'] at hindex
  have hlength : a.length = a'.length := (Option.some.inj hindex).symm
  obtain ⟨hfirst, hrest⟩ := List.append_inj h hlength
  exact ⟨hfirst, (List.cons.inj hrest).2⟩

theorem indexOf_colons {user time : List Byte} (huser : COLON ∉ user) (htime : COLON ∉ time)
    (uid : List Byte) : let text := user ++ COLON :: (time ++ COLON :: uid)
    Utils.indexOf text COLON 0 = some user.length ∧
      Utils.indexOf text COLON (user.length + 1) = some (user.length + 1 + time.length) := by
  constructor
  · exact indexOf_append huser _
  · rw [indexOf_from, drop_colon, indexOf_append htime]
    rfl

theorem run_cases (h : Base64.decodeBase64 sessionTokenText = .ok (data.length, data))
    (hlen : data.length < 2 ^ 31)
    (htext : cipher.icsfDecipher service.sessionTokenKey data data.length = some text) :
    (sessionTokenStillValid getGroupList cipher service now username sessionTokenText =
        .ok (refused username) ∧ ∀ user time uid, text = user ++ COLON :: (time ++ COLON :: uid) →
          COLON ∉ user → COLON ∉ time → False) ∨
    ∃ user time uid, text = user ++ COLON :: (time ++ COLON :: uid) ∧ COLON ∉ user ∧ COLON ∉ time ∧
      sessionTokenStillValid getGroupList cipher service now username sessionTokenText =
        .ok (checkFields getGroupList service now (refused username) text user.length
          (user.length + 1 + time.length)) := by
  have hrun := run_deciphered getGroupList now username h hlen htext
  rcases token_cases text with hnone | ⟨i, hfirst, hnone⟩ | ⟨user, time, uid, rfl, huser, htime⟩
  · rw [hnone] at hrun
    left
    constructor
    · exact hrun
    · intro user time uid hsplit huser htime
      rw [hsplit, (indexOf_colons huser htime uid).1] at hnone
      cases hnone
  · rw [hfirst] at hrun
    dsimp only at hrun
    rw [hnone] at hrun
    left
    constructor
    · exact hrun
    · intro user time uid hsplit huser htime
      obtain ⟨hfirst', hsecond⟩ := indexOf_colons huser htime uid
      rw [← hsplit] at hfirst' hsecond
      rw [hfirst] at hfirst'
      rw [Option.some.inj hfirst', hsecond] at hnone
      cases hnone
  · obtain ⟨hfirst, hsecond⟩ := indexOf_colons huser htime uid
    rw [hfirst] at hrun
    dsimp only at hrun
    rw [hsecond] at hrun
    right
    exact ⟨user, time, uid, rfl, huser, htime, hrun⟩

section Decoded

variable (h : Base64.decodeBase64 sessionTokenText = .ok (data.length, data))
include h

theorem genuine_iff_of_split {user time uid : List Byte}
    (htext : cipher.icsfDecipher service.sessionTokenKey data data.length =
      some (user ++ COLON :: (time ++ COLON :: uid))) (huser : COLON ∉ user) (htime : COLON ∉ time) :
    Genuine cipher getGroupList service now sessionTokenText ↔
      GoodFields getGroupList service now user time uid := by
  constructor
  · rintro ⟨data', user', time', uid', h', htext', huser', hfields⟩
    rw [h] at h'
    obtain ⟨-, rfl⟩ := Prod.mk.inj (Except.ok.inj h')
    rw [htext] at htext'
    obtain ⟨rfl, hrest⟩ := split_unique (Option.some.inj htext') huser huser'
    obtain ⟨rfl, rfl⟩ := split_unique hrest htime (colon_notMem_of_isHex hfields.hexTime)
    exact hfields
  · intro hfields
    exact ⟨data, user, time, uid, h, htext, huser, hfields⟩

theorem failsClosed_iff_of_deciphered (hlen : data.length < 2 ^ 31)
    (htext : cipher.icsfDecipher service.sessionTokenKey data data.length = some text) :
    FailsClosed cipher getGroupList service now username sessionTokenText ↔
      ∀ user time uid, text = user ++ COLON :: (time ++ COLON :: uid) → COLON ∉ user →
        COLON ∉ time → Ebcdic.strtoull16 uid = service.serverInstanceUID →
        TooOld getGroupList service now user (time ++ COLON :: uid) ∨
          GoodFields getGroupList service now user time uid := by
  rcases run_cases getGroupList now username h hlen htext with
    ⟨hrun, hnone⟩ | ⟨user, time, uid, rfl, huser, htime, hrun⟩
  · constructor
    · intro _ user time uid hsplit huser htime
      exact absurd htime (hnone user time uid hsplit huser)
    · intro _
      exact ⟨refused username, hrun, rfl⟩
  · have hgenuine := genuine_iff_of_split getGroupList now h htext huser htime
    obtain ⟨hvalid, husername⟩ := @checkFields_cases getGroupList service now username user time uid
    constructor
    · rintro ⟨check, hcheck, hclosed⟩ user' time' uid' hsplit huser' htime' hown
      obtain ⟨rfl, hrest⟩ := split_unique hsplit huser huser'
      obtain ⟨rfl, rfl⟩ := split_unique hrest htime htime'
      rw [hrun] at hcheck
      rw [← Except.ok.inj hcheck] at hclosed
      by_cases hold : TooOld getGroupList service now user (time ++ COLON :: uid)
      · exact Or.inl hold
      · right
        rw [if_pos (hvalid.mpr ⟨hown, hold⟩)] at hclosed
        exact hgenuine.mp hclosed
    · intro hall
      refine ⟨_, hrun, ?_⟩
      split
      · next haccepted =>
        obtain ⟨hown, hold⟩ := hvalid.mp haccepted
        apply hgenuine.mpr
        exact (hall user time uid rfl huser htime hown).resolve_left hold
      · next hrefused => rw [husername, if_neg hrefused]

theorem failsClosed_iff_of_decoded (hlen : data.length < 2 ^ 31)
    (hpadding : ¬Base64.BadPadding sessionTokenText.bytes) (hmod : sessionTokenText.strlen % 4 = 0) :
    FailsClosed cipher getGroupList service now username sessionTokenText ↔
      SoundToken cipher getGroupList service now sessionTokenText := by
  have hsame {data' : List Byte}
      (h' : Base64.decodeBase64 sessionTokenText = .ok (data'.length, data')) : data' = data := by
    rw [h] at h'
    exact (Prod.mk.inj (Except.ok.inj h')).2.symm
  cases htext : cipher.icsfDecipher service.sessionTokenKey data data.length with
  | none =>
    have hrun := run_undeciphered getGroupList now username h hlen htext
    constructor
    · rintro ⟨check, hcheck, -⟩
      rw [hrun] at hcheck
      split_ifs at hcheck with hnil
      constructor
      · exact hpadding
      · exact fun hodd => absurd hmod hodd
      · intro data' h' hne
        rw [hsame h'] at hne
        exact absurd hnil hne
      · intro data' user time uid h' htext'
        rw [hsame h', htext] at htext'
        cases htext'
    · intro hsound
      have hnil : data = [] := by
        by_contra hne
        exact hsound.deciphers data h hne htext
      rw [if_pos hnil] at hrun
      exact ⟨refused username, hrun, rfl⟩
  | some text =>
    rw [failsClosed_iff_of_deciphered getGroupList now username h hlen htext]
    constructor
    · intro hfields
      constructor
      · exact hpadding
      · exact fun hodd => absurd hmod hodd
      · intro data' h' _
        rw [hsame h', htext]
        exact Option.some_ne_none text
      · intro data' user time uid h' htext'
        rw [hsame h', htext] at htext'
        exact hfields user time uid (Option.some.inj htext')
    · intro hsound user time uid hsplit
      rw [hsplit] at htext
      exact hsound.fields data user time uid h htext

end Decoded

/-- The checks fail closed iff the text is padded as it should be, the cipher fails where there is
nothing to decipher, and nowhere else, and a token with the own id, unless it is taken for too old,
has good fields. -/
theorem session_tokens_fail_closed_iff (cipher : Cipher) (getGroupList : GetGroupList)
    (service : HttpService) (now : BitVec 64) (username : Option CString)
    (sessionTokenText : CString) (hlen : sessionTokenText.strlen < 2 ^ 31) :
    FailsClosed cipher getGroupList service now username sessionTokenText ↔
      SoundToken cipher getGroupList service now sessionTokenText := by
  rcases Base64.decodeBase64_cases sessionTokenText.bytes with
    ⟨hodd, hdecode⟩ | ⟨hbad, hdecode⟩ | ⟨hmod, hpadding, data, hle, -, hdecode⟩
  · have hrun := @run_undecodable cipher getGroupList service now username _ hdecode
    have hnever {data : List Byte}
        (h : Base64.decodeBase64 sessionTokenText = .ok (data.length, data)) : False := by
      have hdecode' : Base64.decodeBase64 sessionTokenText = .ok (-1, []) := hdecode
      rw [hdecode'] at h
      have hneg := (Prod.mk.inj (Except.ok.inj h)).1
      omega
    constructor
    · rintro ⟨check, hcheck, -⟩
      rw [hrun] at hcheck
      split_ifs at hcheck with hnone
      constructor
      · exact fun hbad => hodd hbad.2.1
      · exact fun _ => hnone
      · exact fun data h => absurd h hnever
      · exact fun data user time uid h => absurd h hnever
    · intro hsound
      rw [if_pos (hsound.undecodable hodd)] at hrun
      exact ⟨refused username, hrun, rfl⟩
  · constructor
    · rintro ⟨check, hcheck, -⟩
      have hdecode' : Base64.decodeBase64 sessionTokenText = .error .undefinedBehaviour := hdecode
      unfold sessionTokenStillValid at hcheck
      rw [hdecode'] at hcheck
      cases hcheck
    · intro hsound
      exact absurd hbad hsound.padding
  · exact failsClosed_iff_of_decoded getGroupList now username hdecode (hle.trans_lt hlen) hpadding hmod

end Runs

theorem encodeBase64_bytes (data : List Byte) :
    (CString.ofBytes (Base64.encodeBase64 data)).bytes = Base64.encodeBase64 data :=
  CString.ofBytes_of_noNul fun _ hb => (Base64.mem_encodeBase64 hb).1

theorem session_tokens_fail_closed_iff_empty :
    FailsClosed trivialCipher (fun _ => none) ⟨[], ⟨none, none, 0⟩, ⟨[], by decide⟩, 1⟩ 0 none
        ⟨[], by decide⟩ ↔
      SoundToken trivialCipher (fun _ => none) ⟨[], ⟨none, none, 0⟩, ⟨[], by decide⟩, 1⟩ 0
        ⟨[], by decide⟩ :=
  session_tokens_fail_closed_iff _ _ _ _ _ _ (by decide)

def hourlyService : HttpService where
  sessionTokenKey := []
  timeouts := ⟨none, none, 3600⟩
  cookieName := .ofBytes (Ebcdic.literal "jedHTTPSession")
  serverInstanceUID := 1

/-- The token `A:0:1` is accepted many years later. -/
theorem expired_token_is_accepted :
    ¬ ∀ cipher getGroupList service now username sessionTokenText,
      FailsClosed cipher getGroupList service now username sessionTokenText := by
  intro hall
  have hclosed := hall trivialCipher (fun _ => some []) hourlyService 0x8000000000000000 none
    (.ofBytes (Base64.encodeBase64 [0xC1, 0x7A, 0xF0, 0x7A, 0xF1]))
  have hdecode : Base64.decodeBase64 (.ofBytes (Base64.encodeBase64 [0xC1, 0x7A, 0xF0, 0x7A, 0xF1])) =
      .ok (([0xC1, 0x7A, 0xF0, 0x7A, 0xF1] : List Byte).length, [0xC1, 0x7A, 0xF0, 0x7A, 0xF1]) := by
    unfold Base64.decodeBase64
    rw [encodeBase64_bytes, Base64.decodeBase64_encodeBase64]
  have htext : trivialCipher.icsfDecipher hourlyService.sessionTokenKey
      [0xC1, 0x7A, 0xF0, 0x7A, 0xF1] 5 = some [0xC1, 0x7A, 0xF0, 0x7A, 0xF1] := rfl
  have hfields := (failsClosed_iff_of_deciphered _ _ _ hdecode (by decide) htext).mp hclosed
    [0xC1] [0xF0] [0xF1] rfl (by decide) (by decide) (by decide)
  have hvalidity : validityOf (fun _ => some []) hourlyService [0xC1] = (true, 3600) := by decide
  have hseconds : (3600 : BitVec 32).toInt = 3600 := by decide
  rcases hfields with hold | hgood
  · have htime : Ebcdic.strtoull16 ([0xF0] ++ COLON :: [0xF1]) = 0 := by decide
    have hlt := hold.2
    rw [hvalidity, htime, hseconds] at hlt
    simp at hlt
  · have htime : hexNumber [0xF0] = 0 := by decide
    have hage := hgood.age
    rw [hvalidity, htime, hseconds] at hage
    unfold unitsPerSecond at hage
    simp at hage

end Http
end ZoweCommon
