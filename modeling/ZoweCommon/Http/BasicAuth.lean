import ZoweCommon.Basic.HexText
import ZoweCommon.Http.ClientRequest
import ZoweCommon.Http.HeaderText
import ZoweCommon.Http.SessionToken

/-! The credentials that a client sends and those that the server finds. -/
namespace ZoweCommon
namespace Http

open Base64 (encodeBase64 decodeBase64 EQUALS translation)
open Ebcdic (literal strupcase destructivelyUnasciify)
open HttpClient

def isPassPhrase (password : CString) : Bool := 8 < password.strlen

/-- The user id and the password of a header, if it has them. -/
def extractBasicAuth (isLowerCasePasswordAllowed : Bool) (authHeader : HttpHeader) :
    Exec (Option (CString × CString)) := do
  let headerLength := (CString.ofBytes authHeader.value).strlen
  let ebcdicHeader := (CString.ofBytes authHeader.nativeValue).bytes
  if literal "Basic " <+: ebcdicHeader then
    let encodedAuthString :=
      ((ebcdicHeader.take headerLength).drop 6).takeWhile fun c => 0x41 < c
    let (decodedLength, authString) ← decodeBase64 (.ofBytes encodedAuthString)
    -- a terminator is stored in front of the buffer
    if decodedLength < 0 then throw .undefinedBehaviour
    let authString ← destructivelyUnasciify (authString ++ [0])
    match (authString.take decodedLength.toNat).findIdx? (· = COLON) with
    -- here too: the position of the colon is negative
    | none => throw .undefinedBehaviour
    | some 0 => return none
    | some colonPos =>
      let username := CString.ofBytes (authString.take colonPos)
      let password := CString.ofBytes (authString.drop (colonPos + 1))
      if isLowerCasePasswordAllowed || isPassPhrase password then
        return some (strupcase username, password)
      else return some (strupcase username, strupcase password)
  else return none

def authorization (session : HttpClientSession) : Option CString :=
  session.request.bind fun req => req.headerChain.getLast?.bind HttpClient.HttpHeader.nativeValue

def receivedAuthorization (value : CString) : HttpHeader :=
  nativeHeader (CString.ascii "Authorization") (e2a value.bytes)

/-- The server finds what the client was given, the user id in upper case. -/
def CredentialsSurvive (isLowerCasePasswordAllowed : Bool) (session : HttpClientSession)
    (userid password : CString) : Prop :=
  ∃ value, authorization session = some value ∧
    extractBasicAuth isLowerCasePasswordAllowed (receivedAuthorization value) =
      .ok (some (strupcase userid, password))

/-- The characters of base 64 are received as they were sent, and are all taken. -/
theorem base64_char {data : List Byte} {c : Byte} (h : c ∈ encodeBase64 data) :
    nativeChar (Ebcdic.translate ebcdic_to_ascii c) = c ∧
      Ebcdic.translate ebcdic_to_ascii c ≠ 0 ∧ 0x41 < c ∧ c ≠ 0 := by
  have hall : ∀ bits : Byte, bits < 64 →
      nativeChar (Ebcdic.translate ebcdic_to_ascii (translation bits)) = translation bits ∧
        Ebcdic.translate ebcdic_to_ascii (translation bits) ≠ 0 ∧ 0x41 < translation bits ∧
        translation bits ≠ 0 := by
    simp only [nativeChar_packed, Ebcdic.translate_packed]
    decide +kernel
  rcases Base64.encodeBase64_chars h with ⟨bits, hbits, rfl⟩ | rfl
  · exact hall bits hbits
  · simp only [nativeChar_packed, Ebcdic.translate_packed]
    decide +kernel

/-- The last character of the text is missing. -/
theorem basicValue_bytes {data : List Byte} (hdata : data ≠ []) :
    (basicValue (encodeBase64 data)).bytes =
      literal "Basic " ++ (encodeBase64 data).dropLast := by
  have hlength := Base64.length_encodeBase64 data
  have hpos := List.length_pos_iff.mpr hdata
  have htake : CLibrary.snprintf (6 + (encodeBase64 data).length)
      (literal "Basic " ++ encodeBase64 data) =
        literal "Basic " ++ (encodeBase64 data).dropLast := by
    have hsix : (literal "Basic ").length = 6 := rfl
    unfold CLibrary.snprintf
    rw [List.take_append, hsix, List.take_of_length_le (by omega), List.dropLast_eq_take]
    congr 2
    omega
  unfold basicValue
  dsimp only
  rw [htake]
  apply CString.ofBytes_of_noNul
  apply NoNul.append
  · decide
  · exact fun c hc => (base64_char (List.mem_of_mem_dropLast hc)).2.2.2

theorem received_nativeValue {data : List Byte} (hdata : data ≠ []) :
    (receivedAuthorization (basicValue (encodeBase64 data))).nativeValue =
        literal "Basic " ++ (encodeBase64 data).dropLast ∧
      NoNul (receivedAuthorization (basicValue (encodeBase64 data))).value := by
  have hchars : ∀ c ∈ literal "Basic " ++ (encodeBase64 data).dropLast,
      nativeChar (Ebcdic.translate ebcdic_to_ascii c) = c ∧
        Ebcdic.translate ebcdic_to_ascii c ≠ 0 := by
    intro c hc
    rcases List.mem_append.mp hc with hc | hc
    · have hall : ∀ c ∈ literal "Basic ", nativeChar (Ebcdic.translate ebcdic_to_ascii c) = c ∧
          Ebcdic.translate ebcdic_to_ascii c ≠ 0 := by
        simp only [nativeChar_packed, Ebcdic.translate_packed]
        decide +kernel
      exact hall c hc
    · obtain ⟨hback, hsent, -, -⟩ := base64_char (List.mem_of_mem_dropLast hc)
      exact ⟨hback, hsent⟩
  have hnoNul : NoNul (e2a (literal "Basic " ++ (encodeBase64 data).dropLast)) := by
    intro b hb
    obtain ⟨c, hc, rfl⟩ := List.mem_map.mp hb
    exact (hchars c hc).2
  unfold receivedAuthorization nativeHeader
  rw [basicValue_bytes hdata]
  refine ⟨?_, hnoNul⟩
  show nativeText (e2a _) = _
  have hid : (literal "Basic " ++ (encodeBase64 data).dropLast).map
      (nativeChar ∘ Ebcdic.translate ebcdic_to_ascii) =
        (literal "Basic " ++ (encodeBase64 data).dropLast).map id :=
    List.map_congr_left fun c hc => (hchars c hc).1
  rw [nativeText_of_noNul hnoNul, e2a, List.map_map, hid, List.map_id]

/-- What is left of the text is no number of groups. -/
theorem extractBasicAuth_fails (isLowerCasePasswordAllowed : Bool) {data : List Byte}
    (hdata : data ≠ []) :
    extractBasicAuth isLowerCasePasswordAllowed
        (receivedAuthorization (basicValue (encodeBase64 data))) =
      .error .undefinedBehaviour := by
  obtain ⟨hnative, hvalue⟩ := received_nativeValue hdata
  have hpos := List.length_pos_iff.mpr hdata
  have hlength := Base64.length_encodeBase64 data
  have hnoNul : NoNul (literal "Basic " ++ (encodeBase64 data).dropLast) := by
    rw [← basicValue_bytes hdata]
    exact CString.noNul _
  have hsame : (CString.ofBytes
      (receivedAuthorization (basicValue (encodeBase64 data))).value).strlen =
        (literal "Basic " ++ (encodeBase64 data).dropLast).length := by
    unfold CString.strlen
    rw [CString.ofBytes_of_noNul hvalue, ← basicValue_bytes hdata]
    exact List.length_map _
  have htaken : ((encodeBase64 data).dropLast.takeWhile fun c => 0x41 < c) =
      (encodeBase64 data).dropLast := by
    apply List.takeWhile_eq_self_iff.mpr
    intro c hc
    exact decide_eq_true (base64_char (List.mem_of_mem_dropLast hc)).2.2.1
  have hrest : NoNul (encodeBase64 data).dropLast :=
    fun c hc => (base64_char (List.mem_of_mem_dropLast hc)).2.2.2
  have hodd : decodeBase64 (.ofBytes (encodeBase64 data).dropLast) = .ok (-1, []) := by
    unfold decodeBase64 Base64.decodeBase64Unterminated
    have hgroups : 4 * ((encodeBase64 data).dropLast.length / 4) ≠
        (encodeBase64 data).dropLast.length := by
      rw [List.length_dropLast]
      omega
    rw [CString.ofBytes_of_noNul hrest]
    dsimp only
    rw [if_pos hgroups]
    rfl
  unfold extractBasicAuth
  rw [hsame, hnative, CString.ofBytes_of_noNul hnoNul]
  dsimp only
  rw [if_pos (List.prefix_append _ _), List.take_length]
  have hdrop : (literal "Basic " ++ (encodeBase64 data).dropLast).drop 6 =
      (encodeBase64 data).dropLast := rfl
  rw [hdrop, htaken, hodd]
  rfl

section Client

variable (isLowerCasePasswordAllowed : Bool) (userid password : CString)

/-- The terminator at least is encoded. -/
theorem not_survives_basicValue {session : HttpClientSession} {data : List Byte}
    (hvalue : ∀ value, authorization session = some value →
      value = basicValue (encodeBase64 (data ++ [0]))) :
    ¬CredentialsSurvive isLowerCasePasswordAllowed session userid password := by
  intro hsurvive
  obtain ⟨value, hset, hfound⟩ := hsurvive
  have hne : data ++ [0] ≠ [] := List.append_ne_nil_of_right_ne_nil _ (List.cons_ne_nil _ _)
  rw [hvalue value hset, extractBasicAuth_fails _ hne] at hfound
  exact absurd hfound (by simp)

theorem not_survives_staged (host method urlQuery : CString) (rawBody : List Byte) :
    ¬CredentialsSurvive isLowerCasePasswordAllowed
      (httpClientSessionStageRequest host method urlQuery (some (userid, password)) rawBody).2
      userid password := by
  apply not_survives_basicValue
  intro value hset
  have hstaged : authorization (httpClientSessionStageRequest host method urlQuery
      (some (userid, password)) rawBody).2 =
        some (basicValue (encodeBase64 (e2a (credentials userid password ++ [0])))) := by
    unfold httpClientSessionStageRequest
    split_ifs <;> rfl
  rw [hstaged] at hset
  rw [← Option.some_inj.mp hset, e2a, List.map_append]
  rfl

theorem not_survives_set (session : HttpClientSession) :
    ¬CredentialsSurvive isLowerCasePasswordAllowed
      (httpClientSessionSetBasicAuthHeader session userid password).2 userid password := by
  apply not_survives_basicValue
  intro value hset
  unfold httpClientSessionSetBasicAuthHeader authorization at hset
  cases hrequest : session.request with
  | none => simp [hrequest] at hset
  | some req =>
    rw [hrequest] at hset
    simpa [requestStringHeader] using hset.symm

end Client

/-- No credentials survive, whichever way the header is set. -/
theorem credentials_never_survive (isLowerCasePasswordAllowed : Bool) (userid password : CString) :
    (∀ (host method urlQuery : CString) (rawBody : List Byte),
      ¬CredentialsSurvive isLowerCasePasswordAllowed
        (httpClientSessionStageRequest host method urlQuery (some (userid, password)) rawBody).2
        userid password) ∧
      ∀ session : HttpClientSession, ¬CredentialsSurvive isLowerCasePasswordAllowed
        (httpClientSessionSetBasicAuthHeader session userid password).2 userid password :=
  ⟨not_survives_staged isLowerCasePasswordAllowed userid password,
    not_survives_set isLowerCasePasswordAllowed userid password⟩

/-- Texts of ASCII characters; the user id is not empty and has no colon. -/
structure PlainCredentials (userid password : CString) : Prop where
  userid_ne : userid.bytes ≠ []
  userid_colon : COLON ∉ userid.bytes
  ascii : ∀ c ∈ userid.bytes ++ password.bytes, (Ebcdic.toIso88591 c).toNat < 0x80

theorem not_credentials_survive : ¬∀ (isLowerCasePasswordAllowed : Bool) (userid password : CString),
    PlainCredentials userid password →
    (∀ (host method urlQuery : CString) (rawBody : List Byte),
      CredentialsSurvive isLowerCasePasswordAllowed
        (httpClientSessionStageRequest host method urlQuery (some (userid, password)) rawBody).2
        userid password) ∧
      ∀ session : HttpClientSession, session.request.isSome →
        CredentialsSurvive isLowerCasePasswordAllowed
          (httpClientSessionSetBasicAuthHeader session userid password).2 userid password := by
  intro h
  have hplain : PlainCredentials (.ofBytes (literal "U")) (.ofBytes (literal "P")) := by
    constructor
    all_goals decide +kernel
  obtain ⟨hstaged, -⟩ := h true _ _ hplain
  exact not_survives_staged true _ _ _ _ _ [] (hstaged (.ofBytes (literal "HOST"))
    (.ofBytes (literal "GET")) (.ofBytes (literal "/")) [])

end Http
end ZoweCommon
