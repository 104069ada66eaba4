import ZoweCommon.Basic.Base64
import ZoweCommon.Basic.HexText
import ZoweCommon.Basic.Utils

/-! Session tokens in cookies. -/
namespace ZoweCommon
namespace Http

open CLibrary (formatX isspace)
open Ebcdic (strupcase)
open Utils

def COLON : Byte := 0x7A
def SEMICOLON : Byte := 0x5E
def EQUALS : Byte := 0x7E

/-- What comes from outside: ciphers with a key, and a text that is as long as it is said to be. -/
structure Cipher where
  icsfEncipher : List Byte → List Byte → Option (List Byte)
  icsfDecipher : List Byte → List Byte → ℕ → Option (List Byte)
  length_encipher : ∀ {key text result}, icsfEncipher key text = some result →
    result.length = text.length
  length_decipher : ∀ {key text n result}, icsfDecipher key text n = some result →
    result.length = n

def Cipher.Inverts (cipher : Cipher) : Prop :=
  ∀ {key text result}, cipher.icsfEncipher key text = some result →
    cipher.icsfDecipher key result result.length = some text

/-- The cipher that changes nothing. -/
def trivialCipher : Cipher where
  icsfEncipher _ text := some text
  icsfDecipher _ text n := if text.length = n then some text else none
  length_encipher h := by rw [Option.some.inj h]
  length_decipher {key text n result} h := by
    split_ifs at h with hlength
    rw [← hlength, Option.some.inj h]

theorem trivialCipher_inverts : trivialCipher.Inverts := by
  intro key text result h
  rw [← Option.some.inj h]
  exact if_pos rfl

/-- How long sessions are: what the tables have for a user or a group (0 if nothing), if they are
there, and for all others. -/
structure SessionTimeouts where
  userTimeouts : Option (CString → BitVec 32)
  groupTimeouts : Option (BitVec 32 → BitVec 32)
  defaultTimeout : BitVec 32

/-- The groups of a user, unless the lookup fails. -/
abbrev GetGroupList := CString → Option (List (BitVec 32))

structure HttpService where
  sessionTokenKey : List Byte
  timeouts : SessionTimeouts
  cookieName : CString
  serverInstanceUID : BitVec 64

section Cookie

variable (cookieText cookieName : CString)

/-- The length of the pair at a position, and the position after it. -/
def keyValuePair (pos : ℕ) : ℕ × ℕ :=
  match Utils.indexOf cookieText.bytes SEMICOLON pos with
  | none => (cookieText.strlen - pos, cookieText.strlen)
  | some semiPos => (semiPos - pos, semiPos + 1)

/-- The search goes on from a position. -/
def findCookie : ℕ → ℕ → Exec (Option CString)
  | 0, _ => throw .nonTermination
  | fuel + 1, pos =>
    match cookieText.bytes[pos]? with
    | none => return none
    | some c =>
      if isspace (Ebcdic.toIso88591 c).toInt then findCookie fuel (pos + 1)
      else
        let (keyValuePairLength, nextPos) := keyValuePair cookieText pos
        match Utils.indexOf cookieText.bytes EQUALS pos with
        | none => findCookie fuel nextPos
        | some equalsPos =>
          -- only as many characters are compared as the name in the text has
          if (cookieText.bytes.drop pos).take (equalsPos - pos) =
              cookieName.bytes.take (equalsPos - pos) then
            if equalsPos + 1 ≤ pos + keyValuePairLength then
              return some (.ofBytes ((cookieText.bytes.drop (equalsPos + 1)).take
                (pos + keyValuePairLength - (equalsPos + 1))))
            else throw .undefinedBehaviour
          else findCookie fuel nextPos

def getCookieValue : Exec (Option CString) :=
  findCookie cookieText cookieName (cookieText.strlen + 1) 0

end Cookie

section Make

variable (cipher : Cipher) (service : HttpService)

/-- `%llx` -/
def hexText (n : BitVec 64) : List Byte := (formatX 0 n.toNat).map Ebcdic.toIbm1047

def tokenPlaintext (now : BitVec 64) (username : CString) : List Byte :=
  username.bytes ++ COLON :: (hexText now ++ COLON :: hexText service.serverInstanceUID)

def cookieProperties : List Byte := Ebcdic.literal "; Path=/; HttpOnly; SameSite=Strict"

/-- The text for the response, if the cipher does not fail. -/
def generateSessionTokenKeyValue (now : BitVec 64) (username : CString) : Exec (Option CString) :=
  let plaintext := tokenPlaintext service now username
  if 528 ≤ plaintext.length then throw .undefinedBehaviour
  else
    match cipher.icsfEncipher service.sessionTokenKey plaintext with
    | none => return none
    | some tokenCiphertext =>
      let base64Output := Base64.encodeBase64 tokenCiphertext
      let keyValueBufferSize := base64Output.length + service.cookieName.strlen + 40
      return some (.ofBytes (CLibrary.snprintf keyValueBufferSize
        (service.cookieName.bytes ++ EQUALS :: (base64Output ++ cookieProperties))))

end Make

section Check

/-- One second in the units of the clock, which is no `int`. -/
def ONE_SECOND : BitVec 32 := 4096 * 1000000

def SESSION_VALIDITY_IN_SECONDS : BitVec 32 := 3600

/-- The return code, and the token, which remains null if the cipher fails. -/
def decodeSessionToken (cipher : Cipher) (service : HttpService) (encodedTokenText : List Byte)
    (encodedTokenTextLength : BitVec 32) : Exec (ℤ × Option (List Byte)) :=
  let tokenTextLength := encodedTokenTextLength
  let paddingLength := 4
  match cipher.icsfDecipher service.sessionTokenKey encodedTokenText encodedTokenTextLength.toNat with
  | none => return (0, none)
  | some tokenText =>
    -- the terminator
    if tokenTextLength < tokenTextLength + paddingLength then return (0, some tokenText)
    else throw .undefinedBehaviour

/-- The same as `indexOf`, for a pointer that may be null. -/
def indexOfChecked (str : Option (List Byte)) (len : ℤ) (c : Byte) (startPos : ℕ) :
    Exec (Option ℕ) :=
  if len ≤ startPos then return none
  else
    match str with
    | none => throw .undefinedBehaviour
    | some str => return Utils.indexOf (str.take len.toNat) c startPos

variable (getGroupList : GetGroupList) (timeouts : SessionTimeouts)

def getGroupSessionValidity (groupId : BitVec 32) : Option (BitVec 32) :=
  match timeouts.groupTimeouts with
  | none => none
  | some groupTimeouts => if groupTimeouts groupId ≠ 0 then some (groupTimeouts groupId) else none

def longest (validitySec : BitVec 32) (groupId : BitVec 32) : BitVec 32 :=
  match getGroupSessionValidity timeouts groupId with
  | none => validitySec
  | some currentValiditySec =>
    if validitySec ≠ -1 ∧ (currentValiditySec = -1 ∨ validitySec.toInt < currentValiditySec.toInt) then
      currentValiditySec
    else validitySec

/-- Whether the lookup succeeded, and the seconds. -/
def getUserSessionValidity (username : CString) (validitySec : BitVec 32) : Bool × BitVec 32 :=
  let username := strupcase username
  let validitySec := match timeouts.userTimeouts with
    | none => validitySec
    | some userTimeouts => userTimeouts username
  if validitySec ≠ 0 then (true, validitySec)
  else
    match getGroupList username with
    | none => (false, validitySec)
    | some groups =>
      let validitySec := groups.foldl (longest timeouts) validitySec
      if validitySec ≠ 0 then (true, validitySec)
      else if timeouts.defaultTimeout ≠ 0 then (true, timeouts.defaultTimeout)
      else (true, SESSION_VALIDITY_IN_SECONDS)

/-- What `sessionTokenStillValid` returns, and leaves behind its pointers. -/
structure TokenCheck where
  stillValid : Bool
  username : Option CString
  sessionValiditySec : BitVec 32
  sessionTimeRemaining : BitVec 64
  deriving DecidableEq

/-- The second half of `sessionTokenStillValid`: the token has two colons. A failed lookup is only
logged. -/
def checkFields (service : HttpService) (now : BitVec 64) (check : TokenCheck)
    (plaintextSessionToken : List Byte) (colonPos colonPos2 : ℕ) : TokenCheck :=
  let username := strupcase (.ofBytes (plaintextSessionToken.take colonPos))
  let decodedTimestamp := Ebcdic.strtoull16 (plaintextSessionToken.drop (colonPos + 1))
  let serverInstanceUID := Ebcdic.strtoull16 (plaintextSessionToken.drop (colonPos2 + 1))
  let (_, sessionValiditySec) :=
    getUserSessionValidity getGroupList service.timeouts username check.sessionValiditySec
  let check := { check with sessionValiditySec }
  let interval := sessionValiditySec.signExtend 64 * ONE_SECOND.signExtend 64
  if serverInstanceUID ≠ service.serverInstanceUID then check
  else if 0 < sessionValiditySec.toInt then
    let difference := now - decodedTimestamp
    let check := { check with sessionTimeRemaining := difference }
    if interval < difference then check
    else { check with stillValid := true, username := some username }
  else { check with stillValid := true, username := some username }

/-- `username` is that of the request. -/
def sessionTokenStillValid (cipher : Cipher) (service : HttpService) (now : BitVec 64)
    (username : Option CString) (sessionTokenText : CString) : Exec TokenCheck := do
  let check : TokenCheck :=
    { stillValid := false, username, sessionValiditySec := 0, sessionTimeRemaining := 0 }
  let (decodedDataLength, decodedData) ← Base64.decodeBase64 sessionTokenText
  let (decodeRC, plaintextSessionToken) ←
    decodeSessionToken cipher service decodedData (BitVec.ofInt 32 decodedDataLength)
  if decodeRC ≠ 0 then return check
  else
    match ← indexOfChecked plaintextSessionToken decodedDataLength COLON 0 with
    | none => return check
    | some colonPos =>
      match ← indexOfChecked plaintextSessionToken decodedDataLength COLON (colonPos + 1) with
      | none => return check
      | some colonPos2 =>
        return checkFields getGroupList service now check (plaintextSessionToken.getD []) colonPos
          colonPos2

end Check

end Http
end ZoweCommon
