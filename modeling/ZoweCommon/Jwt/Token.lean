import ZoweCommon.Json.Parser
import ZoweCommon.Jwt.Base64

/-! Reading tokens on a host whose characters are those of ASCII. -/
namespace ZoweCommon
namespace JsonWebToken

open CString

def RC_JWT_OK : ℤ := 0

def RC_JWT_MISSING_PART : ℤ := 2

def RC_JWT_EXTRA_PART : ℤ := 3

def RC_JWT_INVALID_ENCODING : ℤ := 4

def RC_JWT_INVALID_JSON : ℤ := 5

def RC_JWT_UNKNOWN_ALGORITHM : ℤ := 6

def RC_JWT_UNSUPPORTED_ALG : ℤ := 7

def RC_JWT_INVALID_SIGLEN : ℤ := 8

def RC_JWT_CRYPTO_ERROR : ℤ := 9

def RC_JWT_SIG_MISMATCH : ℤ := 10

def RC_JWT_INSECURE : ℤ := 14

def MAX_NPARTS : ℕ := 3

def BASE64URL_EXTRA_BYTES : ℕ := 2

def BASE64URL_EXTRA_BYTES_TOTAL : ℕ := BASE64URL_EXTRA_BYTES * MAX_NPARTS

def ASCII_PERIOD : Byte := 0x2E

inductive JwsAlgorithm
  | none
  | HS256
  | HS384
  | HS512
  | RS256
  | RS384
  | RS512
  | ES256
  | ES384
  | ES512
  | PS256
  | PS384
  | PS512
  deriving DecidableEq

def JwsAlgorithm.all : List JwsAlgorithm :=
  [.none, .HS256, .HS384, .HS512, .RS256, .RS384, .RS512, .ES256, .ES384, .ES512, .PS256, .PS384,
   .PS512]

def JwsAlgorithm.name : JwsAlgorithm → List Byte
  | .none => ascii "none"
  | .HS256 => ascii "HS256"
  | .HS384 => ascii "HS384"
  | .HS512 => ascii "HS512"
  | .RS256 => ascii "RS256"
  | .RS384 => ascii "RS384"
  | .RS512 => ascii "RS512"
  | .ES256 => ascii "ES256"
  | .ES384 => ascii "ES384"
  | .ES512 => ascii "ES512"
  | .PS256 => ascii "PS256"
  | .PS384 => ascii "PS384"
  | .PS512 => ascii "PS512"

structure JwsHeader where
  algorithm : JwsAlgorithm
  keyId : Option CString

structure Jwt where
  header : JwsHeader
  issuer : Option CString
  subject : Option CString
  audience : Option CString
  expirationTime : BitVec 64
  notBefore : BitVec 64
  issuedAt : BitVec 64
  jwtId : BitVec 64
  customClaims : List (CString × Json)

/-! The parts -/

/-- The text from the next part on, if there is one. -/
def strtok_r (s : List Byte) : Option (List Byte) :=
  match s.dropWhile (· = ASCII_PERIOD) with
  | [] => none
  | c :: s => some (c :: s)

def partText (s : List Byte) : List Byte := s.takeWhile (· ≠ ASCII_PERIOD)

def findParts : ℕ → List Byte → List (List Byte)
  | 0, _ => []
  | calls + 1, s =>
    match strtok_r s with
    | none => []
    | some s => s :: findParts calls (s.dropWhile (· ≠ ASCII_PERIOD)).tail

/-- The buffer once all the parts are found: each ends in a terminator, where there was a period. -/
def terminated : Bool → List Byte → List Byte
  | _, [] => List.replicate (BASE64URL_EXTRA_BYTES_TOTAL + 1) 0
  | inPart, c :: s =>
    if c = ASCII_PERIOD then (if inPart then 0 else c) :: terminated false s
    else c :: terminated true s

def rawPart (s : List Byte) : List Byte := (terminated false s).take ((partText s).length + 1)

def movedPart (s : List Byte) : List Byte :=
  (terminated false s).take ((partText s).length + 1 + BASE64URL_EXTRA_BYTES)

/-- If a part cannot be decoded, it and the parts after it are left as they are. -/
def decodeParts (done : List (List Byte)) : List (List Byte) → Exec (ℤ × List (List Byte))
  | [] => return (done.length, done)
  | part :: parts => do
    let (base64Rc, part) := base64urlToBase64 part
    if base64Rc < 0 then return (RC_JWT_INVALID_ENCODING, done ++ part :: parts)
    else
      let (base64Rc, decodedText) ← decodeBase64 part
      if base64Rc < 0 then return (RC_JWT_INVALID_ENCODING, done ++ part :: parts)
      else decodeParts (done ++ [decodedText]) parts

/-- The number of parts or an error, which is no negative number either, and the parts. -/
def extractParts (base64Buf : List Byte) : Exec (ℤ × List (List Byte)) :=
  let dparts := findParts (MAX_NPARTS + 1) base64Buf
  if MAX_NPARTS < dparts.length then
    return (RC_JWT_EXTRA_PART, (dparts.take MAX_NPARTS).map rawPart)
  -- with no part, the first one to be moved has the number `UINT_MAX`
  else if dparts = [] then throw .undefinedBehaviour
  else decodeParts [] (dparts.map movedPart)

/-! The texts in the parts -/

/-- `convert` stands for the conversion from UTF-8, which may fail. -/
def jsonParseUnterminatedUtf8String (convert : List Byte → Option (List Byte)) (fuel : ℕ)
    (jsonUtf8String : List Byte) : Exec (Option Json) :=
  -- the length of the buffer is an `int`
  if 2 ^ 31 ≤ 2 * jsonUtf8String.length then throw .undefinedBehaviour
  else match convert jsonUtf8String with
    | none => return none
    | some buffer => do
      match ← jsonParseUnterminatedString fuel buffer with
      | .ok json => return some json
      | .error _ => return none

def jsonAsString : Json → Option CString
  | .scalar (.string s) => some s
  | _ => none

def jsonAsNumber : Json → BitVec 32
  | .scalar (.number n) => n
  | .scalar (.int64 n) => n.truncate 32
  | _ => 0

inductive JsonPropertyStatus
  | JSON_PROPERTY_OK
  | JSON_PROPERTY_NOT_FOUND
  | JSON_PROPERTY_UNEXPECTED_TYPE
  deriving DecidableEq

def jsonStringProperty (object : List (CString × Json)) (propertyName : CString) :
    Option CString × JsonPropertyStatus :=
  match Json.lookup object propertyName with
  | none => (none, .JSON_PROPERTY_NOT_FOUND)
  | some (.scalar (.string s)) => (some s, .JSON_PROPERTY_OK)
  | some _ => (none, .JSON_PROPERTY_UNEXPECTED_TYPE)

def readHeader (convert : List Byte → Option (List Byte)) (fuel : ℕ) (jsonText : List Byte) :
    Exec (Except ℤ JwsHeader) := do
  match ← jsonParseUnterminatedUtf8String convert fuel jsonText with
  | some (.object obj) =>
    match jsonStringProperty obj (ofBytes (ascii "alg")) with
    | (none, _) => return .error RC_JWT_INVALID_JSON
    | (some inputAlg, _) =>
      match JwsAlgorithm.all.find? fun algorithm => algorithm.name = inputAlg.bytes with
      | none => return .error RC_JWT_UNKNOWN_ALGORITHM
      | some algorithm =>
        let (keyId, status) := jsonStringProperty obj (ofBytes (ascii "kid"))
        if status = .JSON_PROPERTY_UNEXPECTED_TYPE then return .error RC_JWT_INVALID_JSON
        else return .ok ⟨algorithm, keyId⟩
  | _ => return .error RC_JWT_INVALID_JSON

def readClaim (jwt : Jwt) (p : CString × Json) : Jwt :=
  if p.1.bytes = ascii "aud" then { jwt with audience := jsonAsString p.2 }
  else if p.1.bytes = ascii "exp" then
    { jwt with expirationTime := (jsonAsNumber p.2).signExtend 64 }
  else if p.1.bytes = ascii "iat" then { jwt with issuedAt := (jsonAsNumber p.2).signExtend 64 }
  else if p.1.bytes = ascii "iss" then { jwt with issuer := jsonAsString p.2 }
  else if p.1.bytes = ascii "jti" then { jwt with jwtId := (jsonAsNumber p.2).signExtend 64 }
  else if p.1.bytes = ascii "nbf" then { jwt with notBefore := (jsonAsNumber p.2).signExtend 64 }
  else if p.1.bytes = ascii "sub" then { jwt with subject := jsonAsString p.2 }
  else { jwt with customClaims := jwt.customClaims ++ [p] }

/-- Each claim goes into the token; of two of the same name the last one stays. -/
def readClaims (convert : List Byte → Option (List Byte)) (fuel : ℕ) (jsonText : List Byte)
    (jwt : Jwt) : Exec (Except ℤ Jwt) := do
  match ← jsonParseUnterminatedUtf8String convert fuel jsonText with
  | some (.object obj) => return .ok (obj.foldl readClaim jwt)
  | _ => return .error RC_JWT_INVALID_JSON

/-! The signature -/

/-- What the callable services do with a key. An absent message is passed as a null pointer with a
length of -1, an absent signature as a null pointer with a length of 0; `none` is a failure. -/
structure KeyHandle where
  rs_icsfp11_hmacSHA256 : Option (List Byte) → Option (List Byte)
  rs_icsfp11_hmacSHA384 : Option (List Byte) → Option (List Byte)
  rs_icsfp11_hmacSHA512 : Option (List Byte) → Option (List Byte)
  rs_icsfp11_RS256_verify : Option (List Byte) → List Byte → Bool
  rs_icsfp11_RS256_sign : List Byte → Option (List Byte)

def ICSFP11_SHA256_HASHLEN : ℕ := 32

def ICSFP11_SHA384_HASHLEN : ℕ := 48

def ICSFP11_SHA512_HASHLEN : ℕ := 64

/-- The comparison is with a buffer of the length of the hash, which was set to zero. -/
def checkHmac (hashLen : ℕ) (hmac : Option (List Byte) → Option (List Byte))
    (signature : List Byte) (message : Option (List Byte)) : ℤ :=
  if signature.length ≠ hashLen then RC_JWT_INVALID_SIGLEN
  else match hmac message with
    | none => RC_JWT_CRYPTO_ERROR
    | some mac =>
      let hmacbuf := (mac ++ List.replicate hashLen 0).take hashLen
      if signature ≠ hmacbuf then RC_JWT_SIG_MISMATCH else RC_JWT_OK

def checkSignature (algorithm : JwsAlgorithm) (signature : List Byte)
    (message : Option (List Byte)) (keyHandle : KeyHandle) : ℤ :=
  match algorithm with
  | .none => if signature.length = 0 then RC_JWT_INSECURE else RC_JWT_INVALID_SIGLEN
  | .RS256 =>
    if keyHandle.rs_icsfp11_RS256_verify message signature then RC_JWT_OK else RC_JWT_CRYPTO_ERROR
  | .HS256 => checkHmac ICSFP11_SHA256_HASHLEN keyHandle.rs_icsfp11_hmacSHA256 signature message
  | .HS384 => checkHmac ICSFP11_SHA384_HASHLEN keyHandle.rs_icsfp11_hmacSHA384 signature message
  | .HS512 => checkHmac ICSFP11_SHA512_HASHLEN keyHandle.rs_icsfp11_hmacSHA512 signature message
  | _ => RC_JWT_UNSUPPORTED_ALG

/-- The two types that contexts are made with. -/
inductive JwtContext
  | pkcs11 (keyHandle : KeyHandle)
  | custom (checkSignatureFn : JwsAlgorithm → List Byte → Option (List Byte) → ℤ)

def JwtContext.checkSignatureFn : JwtContext → JwsAlgorithm → List Byte → Option (List Byte) → ℤ
  | .pkcs11 keyHandle, algorithm, signature, message =>
    checkSignature algorithm signature message keyHandle
  | .custom checkSignatureFn, algorithm, signature, message =>
    checkSignatureFn algorithm signature message

/-! The token -/

/-- How far it is to the end of as many periods, or else of the text. -/
def prefixLength : ℕ → List Byte → ℕ
  | 0, _ => 0
  | _, [] => 0
  | dots + 1, c :: s =>
    (if c = ASCII_PERIOD then prefixLength dots s else prefixLength (dots + 1) s) + 1

/-- What the signature is checked against: the text up to the second period, if there are three
parts. -/
def signedText (nparts : ℤ) (text : List Byte) : Option (List Byte) :=
  if nparts = 3 then some (text.take (prefixLength 2 text - 1)) else none

/-- The token is there once the header is read. -/
def emptyJwt (header : JwsHeader) : Jwt where
  header := header
  issuer := none
  subject := none
  audience := none
  expirationTime := 0
  notBefore := 0
  issuedAt := 0
  jwtId := 0
  customClaims := []

/-- The return code, and the token if there is one. -/
def jwtParse (convert : List Byte → Option (List Byte)) (fuel : ℕ) (base64Text : CString)
    (ebcdic : Bool) (self : JwtContext) : Exec (ℤ × Option Jwt) := do
  -- the size of the copy is an `int`
  if 2 ^ 31 ≤ base64Text.strlen + BASE64URL_EXTRA_BYTES_TOTAL + 1 then throw .undefinedBehaviour
  if ebcdic then return (RC_JWT_INVALID_ENCODING, none)
  let (nparts, decodedParts) ← extractParts base64Text.bytes
  if nparts < 0 then return (nparts, none)
  if nparts < 1 then return (RC_JWT_MISSING_PART, none)
  match ← readHeader convert fuel (decodedParts.getD 0 []) with
  | .error rc => return (rc, none)
  | .ok header =>
    if nparts < 2 then return (RC_JWT_MISSING_PART, none)
    match ← readClaims convert fuel (decodedParts.getD 1 []) (emptyJwt header) with
    | .error rc => return (rc, none)
    | .ok jwt =>
      let message := signedText nparts base64Text.bytes
      let rc := self.checkSignatureFn header.algorithm (decodedParts.getD 2 []) message
      if rc ≠ RC_JWT_OK ∧ rc ≠ RC_JWT_INSECURE then return (rc, none)
      else return (rc, some jwt)

end JsonWebToken
end ZoweCommon
