import ZoweCommon.Http.BasicAuth
import ZoweCommon.Lib.Slices

/-! The buffers in which the server finds the credentials of a client. -/
namespace ZoweCommon
namespace Http

open Base64 (decodeBase64)
open Ebcdic (literal strupcase destructivelyUnasciify)
open Slices

/-- What was in memory before stays there when it is handed out. -/
structure ShortLivedHeap where
  SLHAlloc : ℕ → ℕ → List Byte
  length_SLHAlloc : ∀ call size, (SLHAlloc call size).length = size

namespace Buffers

def setByte (buffer : List Byte) (pos : ℤ) (c : Byte) : Exec (List Byte) :=
  if 0 ≤ pos ∧ pos < buffer.length then return buffer.set pos.toNat c
  else throw .undefinedBehaviour

def memcpy (dest source : List Byte) (start len : ℤ) : Exec (List Byte) :=
  if 0 ≤ start ∧ 0 ≤ len ∧ len ≤ dest.length ∧ start + len ≤ source.length then
    return slice source start.toNat len.toNat ++ dest.drop len.toNat
  else throw .undefinedBehaviour

def readString (buffer : List Byte) : Exec CString :=
  if 0 ∈ buffer then return .ofBytes buffer else throw .undefinedBehaviour

def unasciifyString (buffer : List Byte) : Exec (List Byte) :=
  if 0 ∈ buffer then destructivelyUnasciify buffer else throw .undefinedBehaviour

def decodeBase64Into (s : CString) (result : List Byte) : Exec (ℤ × List Byte) := do
  let (decodedLength, decoded) ← decodeBase64 s
  if decoded.length ≤ result.length then
    return (decodedLength, decoded ++ result.drop decoded.length)
  else throw .undefinedBehaviour

def colonPosition (authString : List Byte) (decodedLength : ℤ) : ℤ :=
  match (authString.take decodedLength.toNat).findIdx? (· = COLON) with
  | none => -1
  | some colonPos => colonPos

/-- The text that is taken for base 64: up to the first blank. -/
def authText (ebcdicHeader : List Byte) (headerLength : ℕ) : List Byte :=
  ((ebcdicHeader.take headerLength).drop 6).takeWhile fun c => 0x41 < c

def splitAuth (heap : ShortLivedHeap) (isLowerCasePasswordAllowed : Bool) (authString : List Byte)
    (decodedLength colonPos : ℤ) : Exec (Option (CString × CString)) :=
  if colonPos ≠ 0 then do
    let authString ← setByte authString colonPos 0
    let password ← memcpy (heap.SLHAlloc 2 decodedLength.toNat) authString (colonPos + 1)
      (decodedLength - colonPos + 1)
    let username ← readString authString
    let password ← readString password
    if isLowerCasePasswordAllowed || isPassPhrase password then
      return some (strupcase username, password)
    else return some (strupcase username, strupcase password)
  else return none

/-- The same, with every access to a buffer checked. -/
def extractBasicAuth (heap : ShortLivedHeap) (isLowerCasePasswordAllowed : Bool)
    (authHeader : HttpHeader) : Exec (Option (CString × CString)) := do
  let headerLength := (CString.ofBytes authHeader.value).strlen
  let ebcdicHeader := (CString.ofBytes authHeader.nativeValue).bytes
  if literal "Basic " <+: ebcdicHeader then
    let authLen := (authText ebcdicHeader headerLength).length
    let encodedAuthString ← memcpy (heap.SLHAlloc 0 (authLen + 1)) (ebcdicHeader ++ [0]) 6 authLen
    let encodedAuthString ← setByte encodedAuthString authLen 0
    let encodedAuthString ← readString encodedAuthString
    let (decodedLength, authString) ←
      decodeBase64Into encodedAuthString (heap.SLHAlloc 1 (authLen + 1))
    let authString ← setByte authString decodedLength 0
    let authString ← unasciifyString authString
    splitAuth heap isLowerCasePasswordAllowed authString decodedLength
      (colonPosition authString decodedLength)
  else return none

section Terminated

variable {data rest : List Byte}

theorem nativeText_terminated (text rest : List Byte) :
    nativeText (text ++ 0 :: rest) = nativeText text ++ 0 :: rest := by
  induction text with
  | nil => exact nativeText_zero rest
  | cons c text ih =>
    by_cases hc : c = 0
    · rw [hc, List.cons_append, nativeText_zero, nativeText_zero, List.cons_append]
    · rw [List.cons_append, nativeText_cons hc, nativeText_cons hc, ih, List.cons_append]

theorem inTable_terminated (text rest : List Byte) :
    InTable (text ++ 0 :: rest) ↔ InTable text := by
  have hsame := congrArg CString.bytes (CString.ofBytes_terminated text rest)
  unfold CString.ofBytes at hsame
  dsimp only at hsame
  unfold InTable
  rw [hsame]

theorem destructivelyUnasciify_terminated (text rest : List Byte) :
    destructivelyUnasciify (text ++ 0 :: rest) =
      if InTable text then .ok (nativeText text ++ 0 :: rest)
      else .error .undefinedBehaviour := by
  rw [destructivelyUnasciify_eq, nativeText_terminated]
  exact if_congr (inTable_terminated text rest) rfl rfl

theorem readString_terminated (text rest : List Byte) :
    readString (text ++ 0 :: rest) = .ok (.ofBytes text) := by
  unfold readString
  rw [if_pos (List.mem_append_right _ List.mem_cons_self), CString.ofBytes_terminated]
  rfl

end Terminated

section Accesses

theorem setByte_negative (buffer : List Byte) (c : Byte) :
    setByte buffer (-1) c = .error .undefinedBehaviour := if_neg fun h => absurd h.1 (by omega)

/-- A store behind what is there. -/
theorem setByte_append (before : List Byte) {after : List Byte} (hne : after ≠ []) (c : Byte) :
    setByte (before ++ after) before.length c = .ok (before ++ c :: after.tail) := by
  obtain ⟨b, rest, rfl⟩ := List.exists_cons_of_ne_nil hne
  unfold setByte
  rw [if_pos]
  · rw [Int.toNat_natCast, List.set_append_right _ _ (le_refl _), Nat.sub_self]
    rfl
  · rw [List.length_append, List.length_cons]
    omega

theorem memcpy_eq {dest source : List Byte} {start len : ℕ} (hdest : len ≤ dest.length)
    (hsource : start + len ≤ source.length) :
    memcpy dest source start len = .ok (slice source start len ++ dest.drop len) := by
  unfold memcpy
  rw [if_pos (by omega)]
  rfl

end Accesses

section Refinement

variable (heap : ShortLivedHeap)

/-- What is found in a decoded text, once it has a colon that is not the first character. -/
theorem splitAuth_eq (allowed : Bool) {text rest : List Byte} {p : ℕ} (hp : p < text.length)
    (hpos : 0 < p) (hrest : rest ≠ []) :
    splitAuth heap allowed (text ++ 0 :: rest) text.length p =
      .ok (some (strupcase (.ofBytes (text.take p)),
        if allowed || isPassPhrase (.ofBytes (text.drop (p + 1)))
        then .ofBytes (text.drop (p + 1)) else strupcase (.ofBytes (text.drop (p + 1))))) := by
  obtain ⟨b, rest, rfl⟩ := List.exists_cons_of_ne_nil hrest
  have hsplit : text ++ 0 :: b :: rest =
      text.take p ++ (text.drop p ++ 0 :: b :: rest) := by
    rw [← List.append_assoc, List.take_append_drop]
  have htake : (text.take p).length = p := by
    rw [List.length_take]
    omega
  have hset : setByte (text ++ 0 :: b :: rest) p 0 =
      .ok (text.take p ++ 0 :: (text.drop (p + 1) ++ 0 :: b :: rest)) := by
    have hstored := setByte_append (text.take p)
      (List.append_ne_nil_of_right_ne_nil (text.drop p) (List.cons_ne_nil 0 (b :: rest))) 0
    rw [htake] at hstored
    rw [hsplit, hstored, List.drop_eq_getElem_cons hp]
    rfl
  have hcopy : memcpy (heap.SLHAlloc 2 text.length)
      (text.take p ++ 0 :: (text.drop (p + 1) ++ 0 :: b :: rest)) ((p : ℤ) + 1)
      ((text.length : ℤ) - p + 1) =
        .ok (text.drop (p + 1) ++ 0 :: b :: (heap.SLHAlloc 2 text.length).drop
          (text.length - p + 1)) := by
    have hnext : ((p : ℤ) + 1) = ((p + 1 : ℕ) : ℤ) := by omega
    have hcount : ((text.length : ℤ) - p + 1) = ((text.length - p + 1 : ℕ) : ℤ) := by omega
    rw [hnext, hcount, memcpy_eq]
    · have hassoc : text.take p ++ 0 :: (text.drop (p + 1) ++ 0 :: b :: rest) =
          (text.take p ++ [0]) ++ ((text.drop (p + 1) ++ [0, b]) ++ rest) := by
        simp
      rw [hassoc, slice_append, List.append_assoc]
      · rfl
      · rw [List.length_append, htake]
        rfl
      · simp only [List.length_append, List.length_drop, List.length_cons, List.length_nil]
        omega
    · rw [heap.length_SLHAlloc]
      omega
    · simp only [List.length_append, List.length_cons, List.length_drop, htake]
      omega
  unfold splitAuth
  rw [if_pos (by omega), hset, Exec.ok_bind, Int.toNat_natCast, hcopy, Exec.ok_bind, readString_terminated,
    Exec.ok_bind, readString_terminated, Exec.ok_bind]
  split_ifs <;> rfl

theorem splitAuth_none (allowed : Bool) (authString : List Byte) (decodedLength : ℤ) :
    splitAuth heap allowed authString decodedLength (-1) = .error .undefinedBehaviour := by
  unfold splitAuth
  rw [if_pos (by omega), setByte_negative]
  rfl

theorem authText_noNul (ebcdicHeader : List Byte) (headerLength : ℕ) :
    NoNul (authText ebcdicHeader headerLength) := by
  intro c hc hzero
  have habove := List.mem_takeWhile_imp hc
  rw [hzero] at habove
  exact absurd habove (by decide)

theorem memcpy_authText {ebcdicHeader buffer : List Byte} {headerLength : ℕ}
    (hsix : 6 ≤ ebcdicHeader.length)
    (hbuffer : (authText ebcdicHeader headerLength).length ≤ buffer.length) :
    memcpy buffer (ebcdicHeader ++ [0]) 6 (authText ebcdicHeader headerLength).length =
      .ok (authText ebcdicHeader headerLength ++
        buffer.drop (authText ebcdicHeader headerLength).length) := by
  have hstart : authText ebcdicHeader headerLength <+: ebcdicHeader.drop 6 := by
    unfold authText
    refine (List.takeWhile_prefix _).trans ?_
    rw [List.drop_take]
    exact List.take_prefix _ _
  have hlength := hstart.length_le
  rw [List.length_drop] at hlength
  obtain ⟨rest, hrest⟩ := hstart
  have hslice : slice (ebcdicHeader ++ [0]) 6 (authText ebcdicHeader headerLength).length =
      authText ebcdicHeader headerLength := by
    rw [slice_append_left _ (by omega)]
    unfold slice
    rw [← hrest, List.take_left]
  have hcopied := @memcpy_eq buffer (ebcdicHeader ++ [0]) 6 _ hbuffer (by
    rw [List.length_append]
    omega)
  rw [hslice] at hcopied
  exact hcopied

theorem decodeBase64Into_ok {s : CString} {data buffer : List Byte}
    (hdecode : decodeBase64 s = .ok (data.length, data)) (hfits : data.length ≤ buffer.length) :
    decodeBase64Into s buffer = .ok (data.length, data ++ buffer.drop data.length) := by
  unfold decodeBase64Into
  rw [hdecode, Exec.ok_bind]
  exact if_pos hfits

/-- After decoding: what is in front of the terminator is as it was without the buffers. -/
theorem afterDecoding_eq (allowed : Bool) {data rest : List Byte} (hrest : data ≠ [] → rest ≠ []) :
    (do let authString ← unasciifyString (data ++ 0 :: rest)
        splitAuth heap allowed authString data.length (colonPosition authString data.length)) =
      (do let authString ← destructivelyUnasciify (data ++ [0])
          match (authString.take (data.length : ℤ).toNat).findIdx? (· = COLON) with
          | none => throw .undefinedBehaviour
          | some 0 => return none
          | some colonPos =>
            let username := CString.ofBytes (authString.take colonPos)
            let password := CString.ofBytes (authString.drop (colonPos + 1))
            if allowed || isPassPhrase password then
              return some (strupcase username, password)
            else return some (strupcase username, strupcase password)) := by
  have hlength := length_nativeText data
  unfold unasciifyString
  rw [if_pos (List.mem_append_right _ List.mem_cons_self), destructivelyUnasciify_terminated,
    destructivelyUnasciify_terminated]
  by_cases htable : InTable data
  · rw [if_pos htable, if_pos htable, Exec.ok_bind, Exec.ok_bind]
    unfold colonPosition
    rw [Int.toNat_natCast, ← hlength, List.take_left, List.take_left]
    cases hcolon : (nativeText data).findIdx? (· = COLON) with
    | none => exact splitAuth_none heap allowed _ _
    | some p =>
      have hp : p < (nativeText data).length := (List.findIdx?_eq_some_iff_getElem.mp hcolon).1
      cases p with
      | zero => rfl
      | succ p =>
        have hne : data ≠ [] := by
          intro hnil
          rw [hlength, hnil] at hp
          exact absurd hp (Nat.not_lt_zero _)
        have htake : (nativeText data ++ [0]).take (p + 1) = (nativeText data).take (p + 1) :=
          List.take_append_of_le_length hp.le
        have hdrop : (nativeText data ++ [0]).drop (p + 1 + 1) =
            (nativeText data).drop (p + 1 + 1) ++ [0] := List.drop_append_of_le_length hp
        rw [splitAuth_eq heap allowed hp (Nat.succ_pos p) (hrest hne)]
        simp only [htake, hdrop, CString.ofBytes_terminated]
        split_ifs <;> rfl
  · rw [if_neg htable, if_neg htable]
    rfl

/-- Wherever the accesses go outside the buffers, the run was without a meaning already. -/
theorem extractBasicAuth_eq (allowed : Bool) (authHeader : HttpHeader) :
    extractBasicAuth heap allowed authHeader = Http.extractBasicAuth allowed authHeader := by
  unfold extractBasicAuth Http.extractBasicAuth
  dsimp only
  by_cases hbasic : literal "Basic " <+: (CString.ofBytes authHeader.nativeValue).bytes
  · rw [if_pos hbasic, if_pos hbasic]
    generalize (CString.ofBytes authHeader.nativeValue).bytes = ebcdicHeader at hbasic
    generalize (CString.ofBytes authHeader.value).strlen = headerLength
    have htoken : ((ebcdicHeader.take headerLength).drop 6).takeWhile (fun c => 0x41 < c) =
        authText ebcdicHeader headerLength := rfl
    have hsix : 6 ≤ ebcdicHeader.length := hbasic.length_le
    rw [htoken, memcpy_authText hsix (by rw [heap.length_SLHAlloc]; omega), Exec.ok_bind]
    have hnoNul := authText_noNul ebcdicHeader headerLength
    generalize authText ebcdicHeader headerLength = token at hnoNul
    have hstored : setByte (token ++ (heap.SLHAlloc 0 (token.length + 1)).drop token.length)
        token.length 0 = .ok (token ++ 0 :: ((heap.SLHAlloc 0 (token.length + 1)).drop
          token.length).tail) := by
      apply setByte_append
      apply List.ne_nil_of_length_pos
      rw [List.length_drop, heap.length_SLHAlloc]
      omega
    rw [hstored, Exec.ok_bind, readString_terminated, Exec.ok_bind]
    have hbytes := CString.ofBytes_of_noNul hnoNul
    rcases Base64.decodeBase64_cases token with ⟨-, hodd⟩ | ⟨-, hbad⟩ | ⟨-, -, data, -, -, hdecode⟩
    · have hnone : decodeBase64 (.ofBytes token) = .ok (-1, []) := by
        unfold decodeBase64
        rw [hbytes, hodd]
      have hinto (buffer : List Byte) :
          decodeBase64Into (.ofBytes token) buffer = .ok (-1, buffer) := by
        unfold decodeBase64Into
        rw [hnone, Exec.ok_bind]
        exact if_pos (Nat.zero_le _)
      rw [hinto, hnone, Exec.ok_bind, Exec.ok_bind]
      dsimp only
      rw [setByte_negative, if_pos (by omega)]
      rfl
    · have herror : decodeBase64 (.ofBytes token) = .error .undefinedBehaviour := by
        unfold decodeBase64
        rw [hbytes, hbad]
      unfold decodeBase64Into
      rw [herror]
      rfl
    · have hdecoded : decodeBase64 (.ofBytes token) = .ok (data.length, data) := by
        unfold decodeBase64
        rw [hbytes, hdecode]
      have hle := Base64.length_decoded_le hdecode
      have hroom : (heap.SLHAlloc 1 (token.length + 1)).length = token.length + 1 :=
        heap.length_SLHAlloc _ _
      rw [decodeBase64Into_ok hdecoded (by omega), hdecoded, Exec.ok_bind, Exec.ok_bind]
      dsimp only
      rw [setByte_append data (List.ne_nil_of_length_pos (by rw [List.length_drop]; omega)),
        Exec.ok_bind, if_neg (by omega)]
      apply afterDecoding_eq
      intro hne
      have hpos := List.length_pos_iff.mpr hne
      apply List.ne_nil_of_length_pos
      rw [List.length_tail, List.length_drop]
      omega
  · rw [if_neg hbasic, if_neg hbasic]

end Refinement

def ASCII_COLON : Byte := 0x3A

/-- The text after `Basic`, up to its first blank, decodes to a user and a password in ASCII. -/
structure DecodesTo (value user password : List Byte) : Prop where
  decodes : ∃ token rest,
    (CString.ofBytes (nativeText value)).bytes = literal "Basic " ++ (token ++ rest) ∧
    (∀ c ∈ token, 0x41 < c) ∧ (∀ c ∈ rest.head?, c ≤ 0x41) ∧
    Base64.decodeBase64Unterminated token =
      .ok ((user ++ ASCII_COLON :: password).length, user ++ ASCII_COLON :: password)
  firstColon : ASCII_COLON ∉ user
  ascii : ∀ b ∈ user ++ password, b ≠ 0 ∧ b.toNat < 0x80

/-- Passwords that are no longer than a password are folded where the system wants that. -/
def foldPassword (isLowerCasePasswordAllowed : Bool) (password : CString) : CString :=
  if isLowerCasePasswordAllowed || isPassPhrase password then password else strupcase password

section Credentials

variable {value user password : List Byte}

theorem nativeChar_eq_colon {b : Byte} (h : b.toNat < 0x80) :
    nativeChar b = COLON ↔ b = ASCII_COLON := by
  have hall : ∀ b : Byte, b.toNat < 0x80 → (nativeChar b = COLON ↔ b = ASCII_COLON) := by
    simp only [nativeChar_packed]
    decide +kernel
  exact hall b h

theorem findIdx?_colon (h : DecodesTo value user password) :
    ((user ++ ASCII_COLON :: password).map nativeChar).findIdx? (· = COLON) = some user.length := by
  have hnone : (user.map nativeChar).findIdx? (· = COLON) = none := by
    rw [List.findIdx?_eq_none_iff]
    intro c hc
    obtain ⟨b, hb, rfl⟩ := List.mem_map.mp hc
    have hsmall := (h.ascii b (List.mem_append_left _ hb)).2
    apply decide_eq_false
    intro hcolon
    rw [(nativeChar_eq_colon hsmall).mp hcolon] at hb
    exact h.firstColon hb
  have hcolon : nativeChar ASCII_COLON = COLON := (nativeChar_eq_colon (by decide)).mpr rfl
  rw [List.map_append, List.findIdx?_append, hnone, List.map_cons, List.findIdx?_cons,
    decide_eq_true hcolon, List.length_map]
  simp

theorem length_native_le (value : List Byte) :
    (CString.ofBytes (nativeText value)).bytes.length ≤ (CString.ofBytes value).strlen := by
  have hsplit : (CString.ofBytes (nativeText value)).bytes =
      (CString.ofBytes ((value.takeWhile (· ≠ 0)).map nativeChar)).bytes := by
    unfold nativeText
    cases hrest : value.dropWhile (· ≠ 0) with
    | nil => rw [List.append_nil]
    | cons c rest =>
      have hc : c = 0 := by
        have hhead := List.head?_dropWhile_not (· ≠ 0) value
        rw [hrest] at hhead
        simpa using hhead
      rw [hc, CString.ofBytes_terminated]
  rw [hsplit]
  refine (List.takeWhile_prefix _).length_le.trans ?_
  rw [List.length_map]
  exact le_refl _

theorem inTable_credentials (h : DecodesTo value user password) :
    InTable (user ++ ASCII_COLON :: password) ∧ NoNul (user ++ ASCII_COLON :: password) := by
  have hall : ∀ b ∈ user ++ ASCII_COLON :: password, b ≠ 0 ∧ b.toNat < 0x80 := by
    intro b hb
    rcases List.mem_append.mp hb with hb | hb
    · exact h.ascii b (List.mem_append_left _ hb)
    · rcases List.mem_cons.mp hb with rfl | hb
      · decide
      · exact h.ascii b (List.mem_append_right _ hb)
  constructor
  · intro b hb
    exact (hall b ((List.takeWhile_prefix _).subset hb)).2.le
  · exact fun b hb => (hall b hb).1

/-- What the server makes of a header with credentials. -/
theorem extractBasicAuth_decoded (heap : ShortLivedHeap) (allowed : Bool) (name : List Byte)
    (h : DecodesTo value user password) :
    extractBasicAuth heap allowed (nativeHeader name value) =
      .ok (if user = [] then none
        else some (strupcase (.ofBytes (user.map nativeChar)),
          foldPassword allowed (.ofBytes (password.map nativeChar)))) := by
  obtain ⟨token, rest, htext, htoken, hrest, hdecode⟩ := h.decodes
  obtain ⟨htable, hnoNul⟩ := inTable_credentials h
  have hcolon := findIdx?_colon h
  have hwhole := length_native_le value
  have htaken : ((literal "Basic " ++ (token ++ rest)).drop 6).takeWhile (fun c => 0x41 < c) =
      token := by
    have hdrop : (literal "Basic " ++ (token ++ rest)).drop 6 = token ++ rest := rfl
    have hall : ∀ c ∈ token, decide (0x41 < c) = true := fun c hc => decide_eq_true (htoken c hc)
    rw [hdrop, List.takeWhile_append_of_pos hall]
    cases rest with
    | nil => exact List.append_nil token
    | cons c rest =>
      have hstop : ¬(0x41 < c) := BitVec.not_lt.mpr (hrest c rfl)
      rw [List.takeWhile_cons_of_neg (by simpa using hstop), List.append_nil]
  have hstring : decodeBase64 (.ofBytes token) = .ok ((user ++ ASCII_COLON :: password).length,
      user ++ ASCII_COLON :: password) := by
    unfold decodeBase64
    rw [CString.ofBytes_of_noNul, hdecode]
    intro c hc hzero
    have habove := htoken c hc
    rw [hzero] at habove
    exact absurd habove (by decide)
  rw [extractBasicAuth_eq]
  unfold Http.extractBasicAuth nativeHeader
  dsimp only
  rw [List.take_of_length_le hwhole, htext, if_pos (List.prefix_append _ _), htaken, hstring,
    Exec.ok_bind]
  dsimp only
  rw [if_neg (by omega), destructivelyUnasciify_terminated, if_pos htable, Exec.ok_bind,
    nativeText_of_noNul hnoNul]
  have htake : (((user ++ ASCII_COLON :: password).map nativeChar) ++ [0]).take
      ((user ++ ASCII_COLON :: password).length : ℤ).toNat =
        (user ++ ASCII_COLON :: password).map nativeChar := by
    rw [Int.toNat_natCast]
    exact List.take_left' (List.length_map _)
  rw [htake, hcolon]
  cases huser : user with
  | nil => rfl
  | cons b bytes =>
    have hbefore : (((user ++ ASCII_COLON :: password).map nativeChar) ++ [0]).take user.length =
        user.map nativeChar := by
      rw [List.map_append, List.append_assoc]
      exact List.take_left' (List.length_map _)
    have hafter : (((user ++ ASCII_COLON :: password).map nativeChar) ++ [0]).drop
        (user.length + 1) = password.map nativeChar ++ [0] := by
      rw [List.map_append, List.append_assoc, ← List.drop_drop]
      rw [List.drop_left' (List.length_map _)]
      rfl
    rw [huser] at hbefore hafter
    simp only [List.length_cons] at hbefore hafter ⊢
    simp only [hbefore, hafter, CString.ofBytes_terminated, reduceCtorEq, if_false]
    unfold foldPassword
    split_ifs <;> rfl

end Credentials

def clearedHeap : ShortLivedHeap where
  SLHAlloc _ size := List.replicate size 0
  length_SLHAlloc _ _ := List.length_replicate

/-- The header `Basic VTpw`, for the user `U` and the password `p`. -/
theorem decodesTo_short : DecodesTo (CString.ascii "Basic VTpw") [0x55] [0x70] := by
  refine ⟨⟨literal "VTpw", [], ?_, ?_, ?_, ?_⟩, ?_, ?_⟩
  · decide +kernel
  · decide +kernel
  · exact nofun
  · decide +kernel
  · decide
  · decide

theorem extractBasicAuth_decoded_short :
    extractBasicAuth clearedHeap true
        (nativeHeader (CString.ascii "Authorization") (CString.ascii "Basic VTpw")) =
      .ok (some (strupcase (.ofBytes [nativeChar 0x55]), .ofBytes [nativeChar 0x70])) :=
  extractBasicAuth_decoded clearedHeap true (CString.ascii "Authorization") decodesTo_short

/-- Where passwords are in upper case, this one is `P`. -/
theorem not_extractBasicAuth_password : DecodesTo (CString.ascii "Basic VTpw") [0x55] [0x70] ∧
    extractBasicAuth clearedHeap false
        (nativeHeader (CString.ascii "Authorization") (CString.ascii "Basic VTpw")) ≠
      .ok (some (strupcase (.ofBytes [nativeChar 0x55]), .ofBytes [nativeChar 0x70])) := by
  refine ⟨decodesTo_short, ?_⟩
  rw [extractBasicAuth_eq]
  decide +kernel

end Buffers

end Http
end ZoweCommon
