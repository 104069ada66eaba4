import ZoweCommon.Encodings.Base64url

/-! What is encoded is decoded again, also from the text for URLs. -/
namespace ZoweCommon
namespace Encodings

/-- Which alphabet is native. -/
def Charset.isEbcdic : Charset → Bool
  | .ascii => false
  | .ebcdic => true

theorem equalsChar_native (cs : Charset) : equalsChar cs cs.isEbcdic = (alphabet cs).pad := by
  cases cs <;> rfl

theorem translation_native (cs : Charset) {bits : Byte} (h : bits < 64) :
    translation cs.isEbcdic bits = (alphabet cs).char (bits.truncate 6) := by
  cases cs with
  | ascii =>
    have hall : ∀ bits : Byte, bits < 64 →
        translation false bits = PaddedBase64.asciiChar (bits.truncate 6) := by decide +kernel
    exact hall bits h
  | ebcdic =>
    have hall : ∀ bits : Byte, bits < 64 →
        translation true bits = Ebcdic.toIbm1047 (PaddedBase64.asciiChar (bits.truncate 6)) := by
      simp only [Ebcdic.toIbm1047_packed]
      decide +kernel
    exact hall bits h

theorem encodeGroups_eq (cs : Charset) (data : List Byte) :
    encodeGroups cs cs.isEbcdic data = PaddedBase64.encode (alphabet cs) data := by
  fun_induction PaddedBase64.encode (alphabet cs) data with
  | case1 x y z data ih =>
    rw [encodeGroups, ih, translation_native cs (Base64.bits₀_lt _),
      translation_native cs (Base64.bits₁_lt _ _), translation_native cs (Base64.bits₂_lt _ _),
      translation_native cs (Base64.bits₃_lt _), PaddedBase64.secondSextet_masked,
      PaddedBase64.thirdSextet_masked, PaddedBase64.fourthSextet_masked]
    rfl
  | case2 x y =>
    rw [encodeGroups, equalsChar_native, Base64.bits₂_zero,
      translation_native cs (Base64.bits₀_lt _), translation_native cs (Base64.bits₁_lt _ _),
      translation_native cs (Base64.bits₂_lt _ _), PaddedBase64.secondSextet_masked,
      PaddedBase64.thirdSextet_masked]
    rfl
  | case3 x =>
    rw [encodeGroups, equalsChar_native, Base64.bits₁_zero,
      translation_native cs (Base64.bits₀_lt _), translation_native cs (Base64.bits₁_lt _ _),
      PaddedBase64.secondSextet_masked]
    rfl
  | case4 => rfl

/-- A character of the alphabet comes back from the one for URLs, which is none of those that
something is done with. -/
theorem fromBase64url_toBase64url {cs : Charset} {c : Byte}
    (h : ((alphabet cs).sextet? c).isSome) : fromBase64url cs (toBase64url cs c) = c ∧
      toBase64url cs c ≠ cs.char '=' ∧ toBase64url cs c ≠ 0 ∧ c ≠ cs.char '=' := by
  cases cs with
  | ascii =>
    have hall : ∀ c : Byte, (PaddedBase64.asciiSextet? c).isSome →
        fromBase64url .ascii (toBase64url .ascii c) = c ∧
          toBase64url .ascii c ≠ Charset.ascii.char '=' ∧ toBase64url .ascii c ≠ 0 ∧
          c ≠ Charset.ascii.char '=' := by decide +kernel
    exact hall c h
  | ebcdic =>
    have hall : ∀ c : Byte, (PaddedBase64.asciiSextet? (Ebcdic.toIso88591 c)).isSome →
        fromBase64url .ebcdic (toBase64url .ebcdic c) = c ∧
          toBase64url .ebcdic c ≠ Charset.ebcdic.char '=' ∧ toBase64url .ebcdic c ≠ 0 ∧
          c ≠ Charset.ebcdic.char '=' := by
      simp only [fromBase64url, toBase64url, Charset.char, Ebcdic.toIbm1047_packed,
        Ebcdic.toIso88591_packed]
      decide +kernel
    exact hall c h

/-- The encoded text: characters, and the padding that makes groups of four. -/
theorem exists_padded (cs : Charset) (data : List Byte) :
    ∃ chars, PaddedBase64.encode (alphabet cs) data =
        chars ++ List.replicate (paddingLength chars.length) (cs.char '=') ∧
      chars.length % 4 ≠ 1 ∧ ∀ c ∈ chars, ((alphabet cs).sextet? c).isSome := by
  have htext := PaddedBase64.isText_iff.mpr
    ⟨data, PaddedBase64.decode_encode (A := alphabet cs) data⟩
  obtain ⟨hdvd, chars, k, heq, hk, hchars⟩ := htext
  rw [heq, List.length_append, List.length_replicate] at hdvd
  have hpadding : paddingLength chars.length = k := by
    unfold paddingLength
    omega
  refine ⟨chars, ?_, by omega, hchars⟩
  rw [heq, hpadding, pad_alphabet]

/-- Encoding and decoding is no change, and neither is the way over the text for URLs. -/
def RoundTrips (cs : Charset) (data : List Byte) : Prop :=
  ∃ text : List Byte,
    encodeBase64NoAlloc cs data cs.isEbcdic = .ok (text ++ [0], (text.length : ℤ)) ∧
    (∀ s, Holds s 0 (text ++ [0]) →
      DecodesTo (decodeBase64Unterminated cs s text.length) data) ∧
    ∀ s bufSize, text.length + 1 ≤ bufSize → Holds s 0 ((base64ToBase64url cs text).1 ++ [0]) →
      ∃ s', (base64urlToBase64 cs s bufSize).result = .ok ((text.count (cs.char '=') : ℤ), s') ∧
        Holds s' 0 (text ++ [0]) ∧ DecodesTo (decodeBase64Unterminated cs s' text.length) data

section RoundTrip

variable {cs : Charset} {chars : List Byte}

theorem base64ToBase64url_eq (hchars : ∀ c ∈ chars, ((alphabet cs).sextet? c).isSome) (k : ℕ) :
    (base64ToBase64url cs (chars ++ List.replicate k (cs.char '='))).1 =
      chars.map (toBase64url cs) ++ List.replicate k 0 := by
  have hequals : toBase64url cs (cs.char '=') = cs.char '=' := by cases cs <;> decide
  have hkept : ((chars ++ List.replicate k (cs.char '=')).map (toBase64url cs)).rdropWhile
      (· = cs.char '=') = chars.map (toBase64url cs) := by
    rw [List.map_append, List.map_replicate, hequals]
    apply PaddedBase64.rdropWhile_replicate
    intro c hc
    obtain ⟨d, hd, rfl⟩ := List.mem_map.mp hc
    exact (fromBase64url_toBase64url (hchars d hd)).2.1
  unfold base64ToBase64url
  dsimp only
  rw [hkept, List.length_append, List.length_replicate, List.length_map, Nat.add_sub_cancel_left]

theorem count_equals (hchars : ∀ c ∈ chars, ((alphabet cs).sextet? c).isSome) (k : ℕ) :
    (chars ++ List.replicate k (cs.char '=')).count (cs.char '=') = k := by
  have hnone : chars.count (cs.char '=') = 0 := by
    rw [List.count_eq_zero]
    exact fun hmem => (fromBase64url_toBase64url (hchars _ hmem)).2.2.2 rfl
  rw [List.count_append, hnone, List.count_replicate_self, Nat.zero_add]

theorem base64urlToBase64_padded {s : Buffer} {bufSize : ℤ} (hmod : chars.length % 4 ≠ 1)
    (hchars : ∀ c ∈ chars, ((alphabet cs).sextet? c).isSome)
    (hroom : (chars.length + paddingLength chars.length : ℤ) < bufSize)
    (hholds : Holds s 0 (chars.map (toBase64url cs) ++
      List.replicate (paddingLength chars.length) 0 ++ [0])) :
    ∃ s', (base64urlToBase64 cs s bufSize).result =
        .ok ((paddingLength chars.length : ℤ), s') ∧
      Holds s' 0 (chars ++ List.replicate (paddingLength chars.length) (cs.char '=') ++ [0]) := by
  have hzeros : List.replicate (paddingLength chars.length) (0 : Byte) ++ [0] =
      0 :: List.replicate (paddingLength chars.length) 0 := by
    rw [← List.replicate_succ', List.replicate_succ]
  rw [List.append_assoc, hzeros, holds_append] at hholds
  obtain ⟨htext, hzero, -⟩ := hholds
  have hnul : NoNul (chars.map (toBase64url cs)) := by
    intro c hc
    obtain ⟨d, hd, rfl⟩ := List.mem_map.mp hc
    exact (fromBase64url_toBase64url (hchars d hd)).2.2.1
  have hlength : (chars.map (toBase64url cs)).length ≤ bufSize.toNat := by
    rw [List.length_map]
    omega
  obtain ⟨s', hs'⟩ := replaced_replaceBase64url cs bufSize.toNat hlength hnul htext (.inl hzero)
  have hresult := hs'.result
  have hback : (chars.map (toBase64url cs)).map (fromBase64url cs) = chars := by
    rw [List.map_map]
    conv_rhs => rw [← List.map_id chars]
    exact List.map_congr_left fun c hc => (fromBase64url_toBase64url (hchars c hc)).1
  have hholds := hs'.holds
  rw [hback] at hholds
  rw [List.length_map, Int.zero_add] at hresult
  rw [base64urlToBase64_eq rfl hresult, padBase64_of_room cs hmod hroom]
  refine ⟨_, rfl, ?_⟩
  rw [List.append_assoc, holds_append]
  refine ⟨holds_congr hholds fun j hj hj' => stored_of_lt (by omega) _, ?_⟩
  rw [Int.zero_add]
  exact holds_stored _ _ _

theorem encodeBase64NoAlloc_eq (cs : Charset) (data : List Byte) :
    encodeBase64NoAlloc cs data cs.isEbcdic =
      let text := PaddedBase64.encode (alphabet cs) data
      if toInt32 text.length = text.length then .ok (text ++ [0], (text.length : ℤ))
      else .error .undefinedBehaviour := by
  unfold encodeBase64NoAlloc
  rw [encodeGroups_eq]
  dsimp only
  split_ifs with h
  · rw [h]
    rfl
  · rfl

/-- The length of a text that is too long is negative, and the terminator goes before it. -/
theorem not_roundTrips64_of_long {data : List Byte} (hlong : 1610612733 < data.length)
    (hsize : data.length < 2147483648) : ¬RoundTrips cs data := by
  rintro ⟨text, hencode, -⟩
  have hlength := PaddedBase64.length_encode (A := alphabet cs) data
  rw [encodeBase64NoAlloc_eq] at hencode
  dsimp only at hencode
  rw [toInt32_of_overflow (by omega) (by omega), if_neg (by omega)] at hencode
  cases hencode

/-- Bytes come back unless their text is so long that its length is no `int`. -/
theorem roundTrips64_iff (cs : Charset) {data : List Byte} (hsize : data.length < 2147483648) :
    RoundTrips cs data ↔ data.length ≤ 1610612733 := by
  constructor
  · intro h
    by_contra hlong
    exact not_roundTrips64_of_long (by omega) hsize h
  · intro hshort
    have hlength := PaddedBase64.length_encode (A := alphabet cs) data
    have hint : toInt32 (PaddedBase64.encode (alphabet cs) data).length =
        (PaddedBase64.encode (alphabet cs) data).length :=
      toInt32_of_isInt32 ⟨by omega, by omega⟩
    have hdecode := PaddedBase64.decode_encode (A := alphabet cs) data
    refine ⟨PaddedBase64.encode (alphabet cs) data, ?_, fun s hs => ?_,
      fun s bufSize hroom hs => ?_⟩
    · rw [encodeBase64NoAlloc_eq]
      dsimp only
      rw [if_pos hint]
    · exact decodesTo_of_decode (holds_append.mp hs).1 hdecode
    · obtain ⟨chars, heq, hmod, hchars⟩ := exists_padded cs data
      rw [heq] at hs hroom hdecode ⊢
      rw [base64ToBase64url_eq hchars] at hs
      have hroom' : (chars.length + paddingLength chars.length : ℤ) < bufSize := by
        rw [List.length_append, List.length_replicate] at hroom
        omega
      obtain ⟨s', hresult, hholds⟩ := base64urlToBase64_padded hmod hchars hroom' hs
      refine ⟨s', ?_, hholds, decodesTo_of_decode (holds_append.mp hholds).1 hdecode⟩
      rw [count_equals hchars]
      exact hresult

theorem roundTrips64_M : RoundTrips .ebcdic [0x4D] :=
  (roundTrips64_iff .ebcdic (by decide)).mpr (by decide)

/-- As many bytes as have a text of 2147483648 characters. -/
theorem not_roundTrips64 : ¬RoundTrips .ascii (List.replicate 1610612734 0) := by
  apply not_roundTrips64_of_long
  · rw [List.length_replicate]
    decide
  · rw [List.length_replicate]
    decide

end RoundTrip

end Encodings
end ZoweCommon
