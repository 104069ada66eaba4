import ZoweCommon.Basic.Ebcdic
import ZoweCommon.Basic.Exec
import Mathlib.Data.List.GetD

/-! Base 64 in the characters of z/OS. -/
namespace ZoweCommon
namespace Base64

def EQUALS : Byte := 0x7E

def getBitsForChar (c : Byte) : BitVec 32 :=
  if 0x81 ≤ c ∧ c ≤ 0x89 then (c - 0x81).zeroExtend 32 + 26
  else if 0x91 ≤ c ∧ c ≤ 0x99 then (c - 0x91).zeroExtend 32 + 35
  else if 0xA2 ≤ c ∧ c ≤ 0xA9 then (c - 0xA2).zeroExtend 32 + 44
  else if 0xC1 ≤ c ∧ c ≤ 0xC9 then (c - 0xC1).zeroExtend 32 + 0
  else if 0xD1 ≤ c ∧ c ≤ 0xD9 then (c - 0xD1).zeroExtend 32 + 9
  else if 0xE2 ≤ c ∧ c ≤ 0xE9 then (c - 0xE2).zeroExtend 32 + 18
  else if 0xF0 ≤ c ∧ c ≤ 0xF9 then (c - 0xF0).zeroExtend 32 + 52
  else if c = 0x4E then 62
  else if c = 0x61 then 63
  else -1

def firstByte (ch0 ch1 : BitVec 32) : Byte := ((ch0 <<< 2) ||| ch1.sshiftRight 4).truncate 8

def secondByte (ch1 ch2 : BitVec 32) : Byte := ((ch1 <<< 4) ||| ch2.sshiftRight 2).truncate 8

def thirdByte (ch2 ch3 : BitVec 32) : Byte := ((ch2 <<< 6) ||| ch3).truncate 8

def decodeFullGroups : List Byte → List Byte
  | c0 :: c1 :: c2 :: c3 :: s =>
    firstByte (getBitsForChar c0) (getBitsForChar c1) ::
      secondByte (getBitsForChar c1) (getBitsForChar c2) ::
      thirdByte (getBitsForChar c2) (getBitsForChar c3) :: decodeFullGroups s
  | _ => []

/-- The length, or a negative number, and the bytes. A character that is none of the 64 is not
noticed. -/
def decodeBase64Unterminated (s : List Byte) : Exec (ℤ × List Byte) :=
  let numGroups := s.length / 4
  if 4 * numGroups ≠ s.length then return (-1, [])
  else
    let lastIsMissing := s ≠ [] ∧ s.getD (s.length - 1) 0 = EQUALS
    let beforeLastIsMissing := s ≠ [] ∧ s.getD (s.length - 2) 0 = EQUALS
    let missingBytesInLastGroup :=
      (if lastIsMissing then 1 else 0) + if beforeLastIsMissing then 1 else 0
    let numFullGroups := if lastIsMissing then numGroups - 1 else numGroups
    let full := decodeFullGroups (s.take (4 * numFullGroups))
    if missingBytesInLastGroup = 0 then return (full.length, full)
    else
      match s.drop (4 * numFullGroups) with
      | c0 :: c1 :: c2 :: _ =>
        let byte0 := firstByte (getBitsForChar c0) (getBitsForChar c1)
        let part := if missingBytesInLastGroup = 1 then
            [byte0, secondByte (getBitsForChar c1) (getBitsForChar c2)]
          else [byte0]
        return ((full ++ part).length, full ++ part)
      -- the characters of the partial group are read after the end of the text
      | _ => throw .undefinedBehaviour

def decodeBase64 (s : CString) : Exec (ℤ × List Byte) := decodeBase64Unterminated s.bytes

def binToEB64 : List Byte :=
  [0xC1, 0xC2, 0xC3, 0xC4, 0xC5, 0xC6, 0xC7, 0xC8, 0xC9, 0xD1, 0xD2, 0xD3, 0xD4, 0xD5, 0xD6, 0xD7,
   0xD8, 0xD9, 0xE2, 0xE3, 0xE4, 0xE5, 0xE6, 0xE7, 0xE8, 0xE9, 0x81, 0x82, 0x83, 0x84, 0x85, 0x86,
   0x87, 0x88, 0x89, 0x91, 0x92, 0x93, 0x94, 0x95, 0x96, 0x97, 0x98, 0x99, 0xA2, 0xA3, 0xA4, 0xA5,
   0xA6, 0xA7, 0xA8, 0xA9, 0xF0, 0xF1, 0xF2, 0xF3, 0xF4, 0xF5, 0xF6, 0xF7, 0xF8, 0xF9, 0x4E, 0x61]

def translation (bits : Byte) : Byte := binToEB64.getD bits.toNat 0

def encodeFullGroups : List Byte → List Byte
  | byte0 :: byte1 :: byte2 :: data =>
    translation (byte0 >>> 2) :: translation (((byte0 <<< 4) &&& 0x3F) ||| (byte1 >>> 4)) ::
      translation (((byte1 <<< 2) &&& 0x3F) ||| (byte2 >>> 6)) :: translation (byte2 &&& 0x3F) ::
      encodeFullGroups data
  | _ => []

def encodePartialGroup : List Byte → List Byte
  | [byte0] => [translation (byte0 >>> 2), translation ((byte0 <<< 4) &&& 0x3F), EQUALS, EQUALS]
  | [byte0, byte1] =>
    [translation (byte0 >>> 2), translation (((byte0 <<< 4) &&& 0x3F) ||| (byte1 >>> 4)),
      translation ((byte1 <<< 2) &&& 0x3F), EQUALS]
  | _ => []

def encodeBase64 (data : List Byte) : List Byte :=
  let numFullGroups := data.length / 3
  encodeFullGroups (data.take (3 * numFullGroups)) ++
    encodePartialGroup (data.drop (3 * numFullGroups))

/-- Of the 64 characters each is read as it was written. -/
theorem getBitsForChar_translation {bits : Byte} (h : bits < 64) :
    getBitsForChar (translation bits) = bits.zeroExtend 32 := by
  have hall : ∀ bits : Byte, bits < 64 → getBitsForChar (translation bits) = bits.zeroExtend 32 := by
    decide +kernel
  exact hall bits h

theorem translation_ne {bits : Byte} (h : bits < 64) : translation bits ≠ EQUALS ∧
    translation bits ≠ 0 ∧ translation bits ≠ 0x5E := by
  have hall : ∀ bits : Byte, bits < 64 → translation bits ≠ EQUALS ∧ translation bits ≠ 0 ∧
      translation bits ≠ 0x5E := by
    decide +kernel
  exact hall bits h

theorem lt_of_top {b : Byte} (h₆ : b[6] = false) (h₇ : b[7] = false) : b < 64 := by
  have hall : ∀ b : Byte, b[6] = false → b[7] = false → b < 64 := by decide +kernel
  exact hall b h₆ h₇

theorem bits₀_lt (b : Byte) : b >>> 2 < 64 := by
  apply lt_of_top <;> simp

theorem bits₁_lt (b c : Byte) : ((b <<< 4) &&& 0x3F) ||| (c >>> 4) < 64 := by
  apply lt_of_top <;> simp

theorem bits₂_lt (b c : Byte) : ((b <<< 2) &&& 0x3F) ||| (c >>> 6) < 64 := by
  apply lt_of_top <;> simp

theorem bits₃_lt (b : Byte) : b &&& 0x3F < 64 := by
  apply lt_of_top <;> simp

/-- The bits of three bytes, of which no more than two are in one character. -/
theorem firstByte_bits (b c : Byte) : firstByte ((b >>> 2).zeroExtend 32)
    ((((b <<< 4) &&& 0x3F) ||| (c >>> 4)).zeroExtend 32) = b := by
  unfold firstByte
  ext i hi
  have hcases : i = 0 ∨ i = 1 ∨ i = 2 ∨ i = 3 ∨ i = 4 ∨ i = 5 ∨ i = 6 ∨ i = 7 := by omega
  rcases hcases with rfl | rfl | rfl | rfl | rfl | rfl | rfl | rfl <;>
    simp [BitVec.getElem_sshiftRight]

theorem secondByte_bits (b c d : Byte) :
    secondByte ((((b <<< 4) &&& 0x3F) ||| (c >>> 4)).zeroExtend 32)
      ((((c <<< 2) &&& 0x3F) ||| (d >>> 6)).zeroExtend 32) = c := by
  unfold secondByte
  ext i hi
  have hcases : i = 0 ∨ i = 1 ∨ i = 2 ∨ i = 3 ∨ i = 4 ∨ i = 5 ∨ i = 6 ∨ i = 7 := by omega
  rcases hcases with rfl | rfl | rfl | rfl | rfl | rfl | rfl | rfl <;>
    simp [BitVec.getElem_sshiftRight]

theorem thirdByte_bits (c d : Byte) :
    thirdByte ((((c <<< 2) &&& 0x3F) ||| (d >>> 6)).zeroExtend 32)
      ((d &&& 0x3F).zeroExtend 32) = d := by
  unfold thirdByte
  ext i hi
  have hcases : i = 0 ∨ i = 1 ∨ i = 2 ∨ i = 3 ∨ i = 4 ∨ i = 5 ∨ i = 6 ∨ i = 7 := by omega
  rcases hcases with rfl | rfl | rfl | rfl | rfl | rfl | rfl | rfl <;>
    simp

theorem decode_encodeFullGroups (n : ℕ) (data : List Byte) (h : data.length = 3 * n) :
    decodeFullGroups (encodeFullGroups data) = data := by
  induction n generalizing data with
  | zero =>
    rw [List.length_eq_zero_iff.mp h]
    rfl
  | succ n ih =>
    match data, h with
    | byte0 :: byte1 :: byte2 :: data, h =>
      have hlength : data.length = 3 * n := by
        simp only [List.length_cons] at h
        omega
      rw [encodeFullGroups, decodeFullGroups, ih data hlength,
        getBitsForChar_translation (bits₀_lt _), getBitsForChar_translation (bits₁_lt _ _),
        getBitsForChar_translation (bits₂_lt _ _), getBitsForChar_translation (bits₃_lt _),
        firstByte_bits, secondByte_bits, thirdByte_bits]

theorem length_encodeFullGroups (n : ℕ) (data : List Byte) (h : data.length = 3 * n) :
    (encodeFullGroups data).length = 4 * n := by
  induction n generalizing data with
  | zero =>
    rw [List.length_eq_zero_iff.mp h]
    rfl
  | succ n ih =>
    match data, h with
    | byte0 :: byte1 :: byte2 :: data, h =>
      have hlength : data.length = 3 * n := by
        simp only [List.length_cons] at h
        omega
      rw [encodeFullGroups]
      simp only [List.length_cons, ih data hlength]
      omega

/-- What is written is one of the 64 characters, or the one for what is missing. -/
theorem mem_encodeFullGroups {data : List Byte} {c : Byte} (h : c ∈ encodeFullGroups data) :
    ∃ bits : Byte, bits < 64 ∧ c = translation bits := by
  fun_induction encodeFullGroups data with
  | case1 byte0 byte1 byte2 data ih =>
    simp only [List.mem_cons] at h
    rcases h with rfl | rfl | rfl | rfl | h
    · exact ⟨_, bits₀_lt _, rfl⟩
    · exact ⟨_, bits₁_lt _ _, rfl⟩
    · exact ⟨_, bits₂_lt _ _, rfl⟩
    · exact ⟨_, bits₃_lt _, rfl⟩
    · exact ih h
  | case2 => cases h

theorem bits₁_zero (b : Byte) :
    (b <<< 4) &&& (0x3F : Byte) = ((b <<< 4) &&& 0x3F) ||| ((0 : Byte) >>> 4) := by
  simp

theorem bits₂_zero (b : Byte) :
    (b <<< 2) &&& (0x3F : Byte) = ((b <<< 2) &&& 0x3F) ||| ((0 : Byte) >>> 6) := by
  simp

theorem mem_encodePartialGroup {data : List Byte} {c : Byte} (h : c ∈ encodePartialGroup data) :
    (∃ bits : Byte, bits < 64 ∧ c = translation bits) ∨ c = EQUALS := by
  unfold encodePartialGroup at h
  split at h
  · simp only [List.mem_cons, List.not_mem_nil, or_false] at h
    rcases h with rfl | rfl | rfl | rfl
    · exact Or.inl ⟨_, bits₀_lt _, rfl⟩
    · rw [bits₁_zero]
      exact Or.inl ⟨_, bits₁_lt _ _, rfl⟩
    · exact Or.inr rfl
    · exact Or.inr rfl
  · simp only [List.mem_cons, List.not_mem_nil, or_false] at h
    rcases h with rfl | rfl | rfl | rfl
    · exact Or.inl ⟨_, bits₀_lt _, rfl⟩
    · exact Or.inl ⟨_, bits₁_lt _ _, rfl⟩
    · rw [bits₂_zero]
      exact Or.inl ⟨_, bits₂_lt _ _, rfl⟩
    · exact Or.inr rfl
  · cases h

theorem encodeBase64_chars {data : List Byte} {c : Byte} (h : c ∈ encodeBase64 data) :
    (∃ bits : Byte, bits < 64 ∧ c = translation bits) ∨ c = EQUALS := by
  unfold encodeBase64 at h
  rcases List.mem_append.mp h with h | h
  · exact Or.inl (mem_encodeFullGroups h)
  · exact mem_encodePartialGroup h

/-- The text has no terminator and no semicolon. -/
theorem mem_encodeBase64 {data : List Byte} {c : Byte} (h : c ∈ encodeBase64 data) :
    c ≠ 0 ∧ c ≠ 0x5E := by
  rcases encodeBase64_chars h with ⟨bits, hbits, rfl⟩ | rfl
  · exact (translation_ne hbits).2
  · decide

/-- A partial group is written as a whole one. -/
theorem length_encodeBase64 (data : List Byte) :
    (encodeBase64 data).length = 4 * ((data.length + 2) / 3) := by
  have hfull : (data.take (3 * (data.length / 3))).length = 3 * (data.length / 3) := by
    rw [List.length_take]
    omega
  have hrest : (data.drop (3 * (data.length / 3))).length = data.length - 3 * (data.length / 3) :=
    List.length_drop
  unfold encodeBase64
  rw [List.length_append, length_encodeFullGroups _ _ hfull]
  match data.drop (3 * (data.length / 3)), hrest with
  | [], hrest =>
    rw [List.length_nil] at hrest
    show 4 * (data.length / 3) + 0 = _
    omega
  | [byte0], hrest =>
    rw [List.length_singleton] at hrest
    show 4 * (data.length / 3) + 4 = _
    omega
  | [byte0, byte1], hrest =>
    rw [List.length_cons, List.length_singleton] at hrest
    show 4 * (data.length / 3) + 4 = _
    omega
  | _ :: _ :: _ :: _, hrest =>
    simp only [List.length_cons] at hrest
    omega

theorem decodeBase64_full {n : ℕ} {s : List Byte} (hlength : s.length = 4 * n)
    (hchars : ∀ c ∈ s, c ≠ EQUALS) :
    decodeBase64Unterminated s = .ok ((decodeFullGroups s).length, decodeFullGroups s) := by
  have hnone (i : ℕ) (hi : 0 < i) : ¬(s ≠ [] ∧ s.getD (4 * n - i) 0 = EQUALS) := by
    rintro ⟨hne, hequals⟩
    have hpos := List.length_pos_iff.mpr hne
    have hlt : 4 * n - i < s.length := by omega
    rw [List.getD_eq_getElem _ _ hlt] at hequals
    exact hchars _ (List.getElem_mem hlt) hequals
  have hdiv : 4 * n / 4 = n := by omega
  have hlast := hnone 1 (by decide)
  have hbefore := hnone 2 (by decide)
  unfold decodeBase64Unterminated
  dsimp only
  rw [hlength, hdiv, if_neg hlast, if_neg hlast, if_neg hbefore, List.take_of_length_le hlength.le]
  simp

/-- A partial group after full ones. -/
theorem decodeBase64_partial {n : ℕ} {s : List Byte} (hlength : s.length = 4 * n)
    (c0 c1 c2 : Byte) : decodeBase64Unterminated (s ++ [c0, c1, c2, EQUALS]) =
      let part := if c2 = EQUALS then [firstByte (getBitsForChar c0) (getBitsForChar c1)]
        else [firstByte (getBitsForChar c0) (getBitsForChar c1),
          secondByte (getBitsForChar c1) (getBitsForChar c2)]
      .ok ((decodeFullGroups s ++ part).length, decodeFullGroups s ++ part) := by
  have hall : (s ++ [c0, c1, c2, EQUALS]).length = 4 * (n + 1) := by
    rw [List.length_append, hlength]
    rfl
  have hdiv : 4 * (n + 1) / 4 = n + 1 := by omega
  have hne : s ++ [c0, c1, c2, EQUALS] ≠ [] := by simp
  have hlast : (s ++ [c0, c1, c2, EQUALS]).getD (4 * (n + 1) - 1) 0 = EQUALS := by
    rw [List.getD_append_right _ _ _ _ (by omega), hlength]
    have hindex : 4 * (n + 1) - 1 - 4 * n = 3 := by omega
    rw [hindex]
    rfl
  have hbefore : (s ++ [c0, c1, c2, EQUALS]).getD (4 * (n + 1) - 2) 0 = c2 := by
    rw [List.getD_append_right _ _ _ _ (by omega), hlength]
    have hindex : 4 * (n + 1) - 2 - 4 * n = 2 := by omega
    rw [hindex]
    rfl
  have hsub : n + 1 - 1 = n := rfl
  unfold decodeBase64Unterminated
  simp only [hall, hdiv, hlast, hbefore, hne, ne_eq, not_true, not_false_eq_true, if_false, true_and,
    if_true, hsub]
  rw [← hlength, List.take_left, List.drop_left]
  by_cases hc2 : c2 = EQUALS
  · simp only [hc2]
    rfl
  · simp only [hc2]
    rfl

/-- The last character is not missing, but the one before it is. -/
def BadPadding (s : List Byte) : Prop :=
  s ≠ [] ∧ s.length % 4 = 0 ∧ s.getD (s.length - 1) 0 ≠ EQUALS ∧ s.getD (s.length - 2) 0 = EQUALS

theorem length_decodeFullGroups (s : List Byte) :
    (decodeFullGroups s).length = 3 * (s.length / 4) := by
  fun_induction decodeFullGroups s with
  | case1 c0 c1 c2 c3 s ih =>
    simp only [List.length_cons, ih]
    omega
  | case2 s hshort =>
    have hlt : s.length < 4 := by
      match s, hshort with
      | [], _ => exact Nat.lt_of_sub_eq_succ rfl
      | [_], _ => exact Nat.lt_of_sub_eq_succ rfl
      | [_, _], _ => exact Nat.lt_of_sub_eq_succ rfl
      | [_, _, _], _ => exact Nat.lt_of_sub_eq_succ rfl
      | c0 :: c1 :: c2 :: c3 :: s, hshort => exact absurd rfl (hshort c0 c1 c2 c3 s)
    rw [List.length_nil]
    omega

/-- Of four characters there are at most three bytes. -/
theorem length_decoded_le {s data : List Byte} {n : ℤ}
    (h : decodeBase64Unterminated s = .ok (n, data)) : data.length ≤ 3 * (s.length / 4) := by
  have hfull (k : ℕ) (hk : k ≤ s.length / 4) :
      (decodeFullGroups (s.take (4 * k))).length = 3 * k := by
    rw [length_decodeFullGroups, List.length_take]
    omega
  unfold decodeBase64Unterminated at h
  dsimp only at h
  by_cases hmod : 4 * (s.length / 4) ≠ s.length
  · rw [if_pos hmod] at h
    cases h
    exact Nat.zero_le _
  rw [if_neg hmod] at h
  by_cases hlast : s ≠ [] ∧ s.getD (s.length - 1) 0 = EQUALS
  · have hpos := List.length_pos_iff.mpr hlast.1
    have hcount := hfull (s.length / 4 - 1) (by omega)
    rw [if_pos hlast, if_pos hlast, if_neg (by omega)] at h
    split at h
    · cases h
      rw [List.length_append, hcount]
      split_ifs
      all_goals
        simp only [List.length_cons, List.length_nil]
        omega
    · cases h
  · have hcount := hfull (s.length / 4) (le_refl _)
    rw [if_neg hlast, if_neg hlast] at h
    by_cases hbefore : s ≠ [] ∧ s.getD (s.length - 2) 0 = EQUALS
    · have hdrop : s.drop (4 * (s.length / 4)) = [] := List.drop_eq_nil_of_le (by omega)
      rw [if_pos hbefore, if_neg (by omega), hdrop] at h
      cases h
    · rw [if_neg hbefore, if_pos rfl] at h
      cases h
      exact hcount.le

theorem decodeBase64_cases (s : List Byte) :
    (s.length % 4 ≠ 0 ∧ decodeBase64Unterminated s = .ok (-1, [])) ∨
    (BadPadding s ∧ decodeBase64Unterminated s = .error .undefinedBehaviour) ∨
    (s.length % 4 = 0 ∧ ¬BadPadding s ∧ ∃ data, data.length ≤ s.length ∧ (data = [] → s = []) ∧
      decodeBase64Unterminated s = .ok (data.length, data)) := by
  by_cases hmod : s.length % 4 = 0
  · right
    have hgroups : 4 * (s.length / 4) = s.length := by omega
    by_cases hlast : s ≠ [] ∧ s.getD (s.length - 1) 0 = EQUALS
    · right
      have hpos := List.length_pos_iff.mpr hlast.1
      have hrest : (s.drop (4 * (s.length / 4 - 1))).length = 4 := by
        rw [List.length_drop]
        omega
      have hfull := length_decodeFullGroups (s.take (4 * (s.length / 4 - 1)))
      rw [List.length_take] at hfull
      refine ⟨hmod, fun hbad => hbad.2.2.1 hlast.2, ?_⟩
      match hdrop : s.drop (4 * (s.length / 4 - 1)), hrest with
      | [c0, c1, c2, c3], _ =>
        unfold decodeBase64Unterminated
        simp only [hgroups, hlast, hdrop, ne_eq, not_true, not_false_eq_true, if_false, if_true,
          true_and, and_self]
        by_cases hbefore : s.getD (s.length - 2) 0 = EQUALS
        · simp only [hbefore, if_true]
          refine ⟨_, ?_, ?_, rfl⟩
          · rw [List.length_append, hfull]
            split_ifs
            all_goals
              simp only [List.length_cons, List.length_nil]
              omega
          · intro hnil
            have hpart := (List.append_eq_nil_iff.mp hnil).2
            split_ifs at hpart
        · simp only [hbefore, if_false]
          refine ⟨_, ?_, ?_, rfl⟩
          · rw [List.length_append, hfull]
            split_ifs
            all_goals
              simp only [List.length_cons, List.length_nil]
              omega
          · intro hnil
            have hpart := (List.append_eq_nil_iff.mp hnil).2
            split_ifs at hpart
    · by_cases hbefore : s ≠ [] ∧ s.getD (s.length - 2) 0 = EQUALS
      · left
        have hdrop : s.drop (4 * (s.length / 4)) = [] := by
          rw [hgroups]
          exact List.drop_length
        refine ⟨⟨hbefore.1, hmod, fun hequals => hlast ⟨hbefore.1, hequals⟩, hbefore.2⟩, ?_⟩
        unfold decodeBase64Unterminated
        dsimp only
        rw [if_neg (not_not.mpr hgroups), if_neg hlast, if_neg hlast, if_pos hbefore, hdrop]
        rfl
      · right
        have hfull := length_decodeFullGroups (s.take (4 * (s.length / 4)))
        rw [List.length_take] at hfull
        refine ⟨hmod, fun hbad => hbefore ⟨hbad.1, hbad.2.2.2⟩,
          decodeFullGroups (s.take (4 * (s.length / 4))), ?_, ?_, ?_⟩
        · omega
        · intro hnil
          rw [hnil] at hfull
          exact List.length_eq_zero_iff.mp (by rw [List.length_nil] at hfull; omega)
        · unfold decodeBase64Unterminated
          dsimp only
          rw [if_neg (not_not.mpr hgroups), if_neg hlast, if_neg hlast, if_neg hbefore]
          rfl
  · left
    constructor
    · exact hmod
    · unfold decodeBase64Unterminated
      dsimp only
      rw [if_pos (by omega)]
      rfl

theorem decodeBase64_encodeBase64 (data : List Byte) :
    decodeBase64Unterminated (encodeBase64 data) = .ok (data.length, data) := by
  have hsplit : data.take (3 * (data.length / 3)) ++ data.drop (3 * (data.length / 3)) = data :=
    List.take_append_drop _ _
  have hfull : (data.take (3 * (data.length / 3))).length = 3 * (data.length / 3) := by
    rw [List.length_take]
    omega
  have hpart : (data.drop (3 * (data.length / 3))).length < 3 := by
    rw [List.length_drop]
    omega
  have hlength := length_encodeFullGroups _ _ hfull
  have hdecode := decode_encodeFullGroups _ _ hfull
  unfold encodeBase64
  dsimp only
  generalize data.take (3 * (data.length / 3)) = full at *
  generalize data.drop (3 * (data.length / 3)) = part at *
  rw [← hsplit]
  match part, hpart with
  | [], _ =>
    have hchars : ∀ c ∈ encodeFullGroups full, c ≠ EQUALS := by
      intro c hc
      obtain ⟨bits, hbits, rfl⟩ := mem_encodeFullGroups hc
      exact (translation_ne hbits).1
    rw [encodePartialGroup, List.append_nil, decodeBase64_full hlength hchars, hdecode,
      List.append_nil]
    · nofun
    · nofun
  | [byte0], _ =>
    rw [encodePartialGroup, decodeBase64_partial hlength, hdecode, bits₁_zero]
    dsimp only
    rw [if_pos rfl, getBitsForChar_translation (bits₀_lt _),
      getBitsForChar_translation (bits₁_lt _ _), firstByte_bits]
  | [byte0, byte1], _ =>
    rw [encodePartialGroup, decodeBase64_partial hlength, hdecode, bits₂_zero]
    dsimp only
    rw [if_neg (translation_ne (bits₂_lt _ _)).1, getBitsForChar_translation (bits₀_lt _),
      getBitsForChar_translation (bits₁_lt _ _), getBitsForChar_translation (bits₂_lt _ _),
      firstByte_bits, secondByte_bits]

end Base64
end ZoweCommon
