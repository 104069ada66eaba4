import Mathlib.Algebra.Group.Nat.Defs
import ZoweCommon.Basic.Base64
import ZoweCommon.Lib.Base64url
import ZoweCommon.Lib.PaddedBase64

/-! Base 64 in the characters of ASCII, and as it is written in tokens. -/
namespace ZoweCommon
namespace JsonWebToken

open Base64 (firstByte secondByte thirdByte)

def getBitsForChar (c : Byte) : BitVec 32 :=
  if 0x61 ≤ c ∧ c ≤ 0x69 then (c - 0x61).zeroExtend 32 + 26
  else if 0x6A ≤ c ∧ c ≤ 0x72 then (c - 0x6A).zeroExtend 32 + 35
  else if 0x73 ≤ c ∧ c ≤ 0x7A then (c - 0x73).zeroExtend 32 + 44
  else if 0x41 ≤ c ∧ c ≤ 0x49 then (c - 0x41).zeroExtend 32 + 0
  else if 0x4A ≤ c ∧ c ≤ 0x52 then (c - 0x4A).zeroExtend 32 + 9
  else if 0x53 ≤ c ∧ c ≤ 0x5A then (c - 0x53).zeroExtend 32 + 18
  else if 0x30 ≤ c ∧ c ≤ 0x39 then (c - 0x30).zeroExtend 32 + 52
  else if c = 0x2B then 62
  else if c = 0x2F then 63
  else -1

def decodeFullGroups : List Byte → List Byte
  | c0 :: c1 :: c2 :: c3 :: s =>
    firstByte (getBitsForChar c0) (getBitsForChar c1) ::
      secondByte (getBitsForChar c1) (getBitsForChar c2) ::
      thirdByte (getBitsForChar c2) (getBitsForChar c3) :: decodeFullGroups s
  | _ => []

def strlen (s : List Byte) : ℕ := (s.takeWhile (· ≠ 0)).length

/-- The text is in a buffer, which is read beyond the terminator if a group seems to be missing. -/
def decodeBase64 (s : List Byte) : Exec (ℤ × List Byte) :=
  let sLen := strlen s
  let numGroups := sLen / 4
  if 4 * numGroups ≠ sLen then return (-1, [])
  else
    let lastIsMissing := sLen ≠ 0 ∧ s.getD (sLen - 1) 0 = 0x3D
    let beforeLastIsMissing := sLen ≠ 0 ∧ s.getD (sLen - 2) 0 = 0x3D
    let missingBytesInLastGroup :=
      (if lastIsMissing then 1 else 0) + if beforeLastIsMissing then 1 else 0
    let numFullGroups := if lastIsMissing then numGroups - 1 else numGroups
    let full := decodeFullGroups (s.take (4 * numFullGroups))
    if missingBytesInLastGroup = 0 then return (full.length, full)
    else
      match s.drop (4 * numFullGroups) with
      | c0 :: c1 :: c2 :: _ =>
        let byte0 := firstByte (getBitsForChar c0) (getBitsForChar c1)
        let part := if missingBytesInLastGroup = 1 then
            [byte0, secondByte (getBitsForChar c1) (getBitsForChar c2)]
          else [byte0]
        return ((full ++ part).length, full ++ part)
      | _ => throw .undefinedBehaviour

def binToB64 : List Byte :=
  [0x41, 0x42, 0x43, 0x44, 0x45, 0x46, 0x47, 0x48, 0x49, 0x4A, 0x4B, 0x4C, 0x4D, 0x4E, 0x4F, 0x50,
   0x51, 0x52, 0x53, 0x54, 0x55, 0x56, 0x57, 0x58, 0x59, 0x5A, 0x61, 0x62, 0x63, 0x64, 0x65, 0x66,
   0x67, 0x68, 0x69, 0x6A, 0x6B, 0x6C, 0x6D, 0x6E, 0x6F, 0x70, 0x71, 0x72, 0x73, 0x74, 0x75, 0x76,
   0x77, 0x78, 0x79, 0x7A, 0x30, 0x31, 0x32, 0x33, 0x34, 0x35, 0x36, 0x37, 0x38, 0x39, 0x2B, 0x2F]

/-- The same groups in the other table. -/
def encodeBase64 (data : List Byte) : List Byte := (Base64.encodeBase64 data).map Ebcdic.toIso88591

def toBase64url (c : Byte) : Byte := if c = 0x2B then 0x2D else if c = 0x2F then 0x5F else c

def toBase64 (c : Byte) : Byte := if c = 0x2D then 0x2B else if c = 0x5F then 0x2F else c

/-- The text without its padding. -/
def base64ToBase64url (s : List Byte) : List Byte :=
  (s.map toBase64url).rdropWhile (· = 0x3D)

/-- The text in a buffer is padded, if it has room and a length that can be padded. -/
def base64urlToBase64 (s : List Byte) : ℤ × List Byte :=
  let i := strlen s
  let bufSize := s.length
  let text := (s.take i).map toBase64
  let rest := s.drop i
  if i % 4 = 2 then
    if bufSize - 2 ≤ i then (-2, text ++ rest)
    else (2, text ++ [0x3D, 0x3D, 0] ++ rest.drop 3)
  else if i % 4 = 3 then
    if bufSize - 1 ≤ i then (-1, text ++ rest)
    else (1, text ++ [0x3D, 0] ++ rest.drop 2)
  else if i % 4 = 0 then (0, text ++ [0] ++ rest.drop 1)
  else (-3, text ++ rest)

/-- The character that stands for the same six bits on z/OS. -/
theorem getBitsForChar_eq (c : Byte) :
    getBitsForChar c = Base64.getBitsForChar (Ebcdic.toIbm1047 c) := by
  have hall : ∀ c : Byte, getBitsForChar c = Base64.getBitsForChar (Ebcdic.toIbm1047 c) := by
    simp only [Ebcdic.toIbm1047_packed]
    decide +kernel
  exact hall c

theorem decodeFullGroups_eq (s : List Byte) :
    decodeFullGroups s = Base64.decodeFullGroups (s.map Ebcdic.toIbm1047) := by
  fun_induction decodeFullGroups s with
  | case1 c0 c1 c2 c3 s ih =>
    simp only [List.map_cons, Base64.decodeFullGroups, getBitsForChar_eq, ih]
  | case2 s hshort =>
    obtain _ | ⟨c0, _ | ⟨c1, _ | ⟨c2, _ | ⟨c3, s⟩⟩⟩⟩ := s
    · rfl
    · rfl
    · rfl
    · rfl
    · exact absurd rfl (hshort c0 c1 c2 c3 s)

theorem strlen_append {s : List Byte} (h : NoNul s) (rest : List Byte) :
    strlen (s ++ 0 :: rest) = s.length := by
  unfold strlen
  rw [List.takeWhile_append_of_pos (fun c hc => by simpa using h c hc),
    List.takeWhile_cons_of_neg (by simp), List.append_nil]

theorem toIbm1047_equals (c : Byte) : Ebcdic.toIbm1047 c = Base64.EQUALS ↔ c = 0x3D := by
  have hequals : Ebcdic.toIbm1047 0x3D = Base64.EQUALS := by decide
  rw [← hequals]
  exact Ebcdic.toIbm1047_injective.eq_iff

theorem decodeBase64_eq {s : List Byte} (hnoNul : NoNul s)
    (hgood : ¬Base64.BadPadding (s.map Ebcdic.toIbm1047)) (rest : List Byte) :
    decodeBase64 (s ++ 0 :: rest) =
      Base64.decodeBase64Unterminated (s.map Ebcdic.toIbm1047) := by
  have hne : s.length ≠ 0 ↔ s.map Ebcdic.toIbm1047 ≠ [] := by
    rw [ne_eq, List.length_eq_zero_iff, ne_eq, List.map_eq_nil_iff]
  have hequals (i : ℕ) : s.length ≠ 0 ∧ (s ++ 0 :: rest).getD (s.length - (i + 1)) 0 = 0x3D ↔
      s.map Ebcdic.toIbm1047 ≠ [] ∧
        (s.map Ebcdic.toIbm1047).getD (s.length - (i + 1)) 0 = Base64.EQUALS := by
    rw [← hne]
    apply and_congr_right
    intro hpos
    have hlt : s.length - (i + 1) < s.length := by omega
    rw [List.getD_append _ _ _ _ hlt, List.getD_eq_getElem _ _ hlt,
      List.getD_eq_getElem _ _ (by rwa [List.length_map]), List.getElem_map, toIbm1047_equals]
  have hfull {n : ℕ} (hn : n ≤ s.length) : decodeFullGroups ((s ++ 0 :: rest).take n) =
      Base64.decodeFullGroups ((s.map Ebcdic.toIbm1047).take n) := by
    rw [List.take_append_of_le_length hn, decodeFullGroups_eq, List.map_take]
  unfold decodeBase64 Base64.decodeBase64Unterminated
  rw [strlen_append hnoNul]
  simp only [hequals 0, hequals 1, List.length_map]
  by_cases hmod : 4 * (s.length / 4) ≠ s.length
  · rw [if_pos hmod, if_pos hmod]
  · rw [if_neg hmod, if_neg hmod]
    by_cases hlast : s.map Ebcdic.toIbm1047 ≠ [] ∧
        (s.map Ebcdic.toIbm1047).getD (s.length - (0 + 1)) 0 = Base64.EQUALS
    · have hpos := hne.mpr hlast.1
      have hle : 4 * (s.length / 4 - 1) ≤ s.length := by omega
      have hgroup : (s.drop (4 * (s.length / 4 - 1))).length = 4 := by
        rw [List.length_drop]
        omega
      rw [if_pos hlast, if_pos hlast, hfull hle, List.drop_append_of_le_length hle, ← List.map_drop]
      generalize s.drop (4 * (s.length / 4 - 1)) = group at hgroup ⊢
      obtain _ | ⟨c0, _ | ⟨c1, _ | ⟨c2, _ | ⟨c3, group⟩⟩⟩⟩ := group
      · cases hgroup
      · cases hgroup
      · cases hgroup
      · cases hgroup
      · simp only [List.cons_append, List.map_cons, getBitsForChar_eq]
    · have hbefore : ¬(s.map Ebcdic.toIbm1047 ≠ [] ∧
          (s.map Ebcdic.toIbm1047).getD (s.length - (1 + 1)) 0 = Base64.EQUALS) := by
        intro hbefore
        apply hgood
        refine ⟨hbefore.1, ?_, ?_, ?_⟩
        · rw [List.length_map]
          omega
        · rw [List.length_map]
          exact fun h => hlast ⟨hbefore.1, h⟩
        · rw [List.length_map]
          exact hbefore.2
      rw [if_neg hlast, if_neg hlast, if_neg hbefore]
      rw [if_pos rfl, if_pos rfl, hfull (by omega)]

/-! What a text of a token decodes to -/

/-- The character that stands for the same six bits on z/OS. -/
def nativeChar (c : Byte) : Byte := Ebcdic.toIbm1047 (toBase64 c)

theorem getBitsForChar_nativeChar {c : Byte} (h : (Base64url.sextet? c).isSome) :
    Base64.getBitsForChar (nativeChar c) = BitVec.ofNat 32 (Base64url.sextet c) ∧
      Base64url.sextet c < 64 := by
  have hall : ∀ c : Byte, (Base64url.sextet? c).isSome →
      Base64.getBitsForChar (nativeChar c) = BitVec.ofNat 32 (Base64url.sextet c) ∧
        Base64url.sextet c < 64 := by
    simp only [nativeChar, Ebcdic.toIbm1047_packed]
    decide +kernel
  exact hall c h

theorem nativeChar_ne {c : Byte} (h : (Base64url.sextet? c).isSome) :
    nativeChar c ≠ Base64.EQUALS := by
  have hequals : toBase64 c ≠ 0x3D := by
    unfold toBase64
    split_ifs
    · decide
    · decide
    · rintro rfl
      exact absurd h (by decide)
  exact mt (toIbm1047_equals _).mp hequals

theorem ne_zero_of_sextet {c : Byte} (h : (Base64url.sextet? c).isSome) : c ≠ 0 := by
  rintro rfl
  exact absurd h (by decide)

theorem sshiftRight_ofNat {b : ℕ} (hb : b < 64) (k : ℕ) :
    (BitVec.ofNat 32 b).sshiftRight k = BitVec.ofNat 32 (b >>> k) := by
  have hmsb : (BitVec.ofNat 32 b).msb = false := by
    rw [BitVec.msb_eq_false_iff_two_mul_lt, BitVec.toNat_ofNat]
    omega
  have hle : b >>> k ≤ b := Nat.shiftRight_le b k
  rw [BitVec.sshiftRight_eq_of_msb_false hmsb]
  apply BitVec.eq_of_toNat_eq
  rw [BitVec.toNat_ushiftRight, BitVec.toNat_ofNat, BitVec.toNat_ofNat, Nat.mod_eq_of_lt (by omega),
    Nat.mod_eq_of_lt (by omega)]

theorem truncate_or {a b k : ℕ} (ha : a < 64) (hk : k ≤ 6) (hb : b < 2 ^ k) :
    ((BitVec.ofNat 32 a) <<< k ||| BitVec.ofNat 32 b).truncate 8 = BitVec.ofNat 8 (2 ^ k * a + b) := by
  have hpow : 2 ^ k ≤ 2 ^ 6 := Nat.pow_le_pow_right (by decide) hk
  have hprod : 2 ^ k * a ≤ 2 ^ 6 * 64 := Nat.mul_le_mul hpow ha.le
  have hshift : (a <<< k) % 2 ^ 32 = a <<< k := by
    rw [Nat.shiftLeft_eq, Nat.mul_comm]
    exact Nat.mod_eq_of_lt (by omega)
  have hor : (BitVec.ofNat 32 a <<< k ||| BitVec.ofNat 32 b).toNat = 2 ^ k * a + b := by
    rw [BitVec.toNat_or, BitVec.toNat_shiftLeft, BitVec.toNat_ofNat, BitVec.toNat_ofNat,
      Nat.mod_eq_of_lt (by omega : a < 2 ^ 32), Nat.mod_eq_of_lt (by omega : b < 2 ^ 32), hshift,
      ← Nat.shiftLeft_add_eq_or_of_lt hb, Nat.shiftLeft_eq, Nat.mul_comm]
  apply BitVec.eq_of_toNat_eq
  rw [BitVec.truncate_eq_setWidth, BitVec.toNat_setWidth, hor, BitVec.toNat_ofNat]

/-- The bytes of two sextets each. -/
theorem bytes_ofNat {a b : ℕ} (ha : a < 64) (hb : b < 64) :
    firstByte (BitVec.ofNat 32 a) (BitVec.ofNat 32 b) = BitVec.ofNat 8 (4 * a + b / 16) ∧
      secondByte (BitVec.ofNat 32 a) (BitVec.ofNat 32 b) = BitVec.ofNat 8 (16 * a + b / 4) ∧
      thirdByte (BitVec.ofNat 32 a) (BitVec.ofNat 32 b) = BitVec.ofNat 8 (64 * a + b) := by
  refine ⟨?_, ?_, truncate_or ha (Nat.le_refl 6) hb⟩
  · rw [firstByte, sshiftRight_ofNat hb, Nat.shiftRight_eq_div_pow]
    exact truncate_or ha (by decide) (by omega)
  · rw [secondByte, sshiftRight_ofNat hb, Nat.shiftRight_eq_div_pow]
    exact truncate_or ha (by decide) (by omega)
section sextets

variable {a b : Byte} (ha : (Base64url.sextet? a).isSome) (hb : (Base64url.sextet? b).isSome)
include ha hb

theorem firstByte_nativeChar : firstByte (Base64.getBitsForChar (nativeChar a))
    (Base64.getBitsForChar (nativeChar b)) = Base64url.firstOctet a b := by
  obtain ⟨hbitsA, hltA⟩ := getBitsForChar_nativeChar ha
  obtain ⟨hbitsB, hltB⟩ := getBitsForChar_nativeChar hb
  rw [hbitsA, hbitsB]
  exact (bytes_ofNat hltA hltB).1

theorem secondByte_nativeChar : secondByte (Base64.getBitsForChar (nativeChar a))
    (Base64.getBitsForChar (nativeChar b)) = Base64url.secondOctet a b := by
  obtain ⟨hbitsA, hltA⟩ := getBitsForChar_nativeChar ha
  obtain ⟨hbitsB, hltB⟩ := getBitsForChar_nativeChar hb
  rw [hbitsA, hbitsB]
  exact (bytes_ofNat hltA hltB).2.1

theorem thirdByte_nativeChar : thirdByte (Base64.getBitsForChar (nativeChar a))
    (Base64.getBitsForChar (nativeChar b)) = Base64url.thirdOctet a b := by
  obtain ⟨hbitsA, hltA⟩ := getBitsForChar_nativeChar ha
  obtain ⟨hbitsB, hltB⟩ := getBitsForChar_nativeChar hb
  rw [hbitsA, hbitsB]
  exact (bytes_ofNat hltA hltB).2.2

end sextets

theorem decodeFullGroups_nativeChar (n : ℕ) {full : List Byte} (hlength : full.length = 4 * n)
    (hchars : ∀ c ∈ full, (Base64url.sextet? c).isSome) :
    Base64.decodeFullGroups (full.map nativeChar) = Base64url.decode full := by
  induction n generalizing full with
  | zero =>
    rw [List.length_eq_zero_iff.mp hlength]
    rfl
  | succ n ih =>
    match full, hlength with
    | a :: b :: c :: d :: full, hlength =>
      have hrest : full.length = 4 * n := by
        simp only [List.length_cons] at hlength
        omega
      simp only [List.forall_mem_cons] at hchars
      obtain ⟨ha, hb, hc, hd, hfull⟩ := hchars
      simp only [List.map_cons, Base64.decodeFullGroups, Base64url.decode]
      rw [firstByte_nativeChar ha hb, secondByte_nativeChar hb hc, thirdByte_nativeChar hc hd,
        ih hrest hfull]

def padded (text : List Byte) : List Byte :=
  text.map toBase64 ++ List.replicate ((4 - text.length % 4) % 4) 0x3D

theorem map_padded (text : List Byte) : (padded text).map Ebcdic.toIbm1047 =
    text.map nativeChar ++ List.replicate ((4 - text.length % 4) % 4) Base64.EQUALS := by
  unfold padded
  rw [List.map_append, List.map_map, List.map_replicate]
  rfl

theorem decodeBase64_map_padded {text : List Byte} (h : Base64url.IsText text) :
    Base64.decodeBase64Unterminated ((padded text).map Ebcdic.toIbm1047) =
      .ok ((Base64url.decode text).length, Base64url.decode text) := by
  obtain ⟨n, full, tail, rfl, hfull, hlt, hmod⟩ := Base64url.exists_groups text
  have hchars := h.sextets
  rw [List.forall_mem_append] at hchars
  have hgroups := decodeFullGroups_nativeChar n hfull hchars.1
  have hlength : (full.map nativeChar).length = 4 * n := by rw [List.length_map, hfull]
  rw [map_padded, ← hmod, List.map_append, List.append_assoc, Base64url.decode_append n hfull]
  match tail, hlt, hmod, hchars.2 with
  | [], _, _, _ =>
    have hne : ∀ c ∈ full.map nativeChar, c ≠ Base64.EQUALS := by
      intro c hc
      obtain ⟨d, hd, rfl⟩ := List.mem_map.mp hc
      exact nativeChar_ne (hchars.1 d hd)
    have hdecode := Base64.decodeBase64_full hlength hne
    rw [hgroups] at hdecode
    simpa [Base64url.decode] using hdecode
  | [_], _, hmod, _ => exact absurd hmod.symm h.length
  | [a, b], _, _, htail =>
    have ha := htail a (by simp)
    have hb := htail b (by simp)
    have hdecode := Base64.decodeBase64_partial hlength (nativeChar a) (nativeChar b) Base64.EQUALS
    rw [hgroups] at hdecode
    simp only [if_true, firstByte_nativeChar ha hb] at hdecode
    exact hdecode
  | [a, b, c], _, _, htail =>
    have ha := htail a (by simp)
    have hb := htail b (by simp)
    have hc := htail c (by simp)
    have hdecode := Base64.decodeBase64_partial hlength (nativeChar a) (nativeChar b) (nativeChar c)
    rw [hgroups] at hdecode
    simp only [if_neg (nativeChar_ne hc), firstByte_nativeChar ha hb,
      secondByte_nativeChar hb hc] at hdecode
    exact hdecode

theorem toBase64_ne_zero {c : Byte} (h : c ≠ 0) : toBase64 c ≠ 0 := by
  unfold toBase64
  split_ifs
  · decide
  · decide
  · exact h

theorem noNul_padded {text : List Byte} (h : NoNul text) : NoNul (padded text) := by
  unfold padded
  apply NoNul.append
  · intro c hc
    obtain ⟨d, hd, rfl⟩ := List.mem_map.mp hc
    exact toBase64_ne_zero (h d hd)
  · intro c hc
    rw [List.eq_of_mem_replicate hc]
    decide

theorem decodeBase64_padded {text : List Byte} (h : Base64url.IsText text) (rest : List Byte) :
    decodeBase64 (padded text ++ 0 :: rest) =
      .ok ((Base64url.decode text).length, Base64url.decode text) := by
  have hnative := decodeBase64_map_padded h
  have hgood : ¬Base64.BadPadding ((padded text).map Ebcdic.toIbm1047) := by
    intro hbad
    rcases Base64.decodeBase64_cases ((padded text).map Ebcdic.toIbm1047) with
      ⟨hmod, -⟩ | ⟨-, hfault⟩ | ⟨-, hgood, -⟩
    · exact hmod hbad.2.1
    · rw [hnative] at hfault
      exact absurd hfault (by simp)
    · exact hgood hbad
  have hnoNul : NoNul text := fun c hc => ne_zero_of_sextet (h.sextets c hc)
  rw [decodeBase64_eq (noNul_padded hnoNul) hgood, hnative]

/-- The two bytes after the terminator are room for the padding. -/
theorem base64urlToBase64_eq {text : List Byte} (hnoNul : NoNul text)
    (hlength : text.length % 4 ≠ 1) (x y : Byte) :
    ∃ rc ≥ 0, ∃ rest, base64urlToBase64 (text ++ [0, x, y]) = (rc, padded text ++ 0 :: rest) ∧
      (rest.length = 2 ∨ ∃ s, padded text = s ++ [0x3D]) := by
  have hstrlen : strlen (text ++ [0, x, y]) = text.length := strlen_append hnoNul [x, y]
  have hcases : text.length % 4 = 0 ∨ text.length % 4 = 2 ∨ text.length % 4 = 3 := by omega
  unfold base64urlToBase64 padded
  simp only [hstrlen, List.take_left, List.drop_left, List.length_append, List.length_cons,
    List.length_nil]
  rcases hcases with hmod | hmod | hmod
  · refine ⟨0, by decide, [x, y], ?_, Or.inl rfl⟩
    simp [hmod]
  · refine ⟨2, by decide, [], ?_, Or.inr ⟨text.map toBase64 ++ [0x3D], ?_⟩⟩
    · simp [hmod]
    · simp [hmod, List.replicate_succ]
  · refine ⟨1, by decide, [y], ?_, Or.inr ⟨text.map toBase64, ?_⟩⟩
    · simp [hmod]
    · simp [hmod]

theorem base64urlToBase64_error {text : List Byte} (hnoNul : NoNul text)
    (hlength : text.length % 4 = 1) (x y : Byte) : (base64urlToBase64 (text ++ [0, x, y])).1 < 0 := by
  have hstrlen : strlen (text ++ [0, x, y]) = text.length := strlen_append hnoNul [x, y]
  unfold base64urlToBase64
  simp only [hstrlen]
  rw [if_neg (by omega), if_neg (by omega), if_neg (by omega)]
  show (-3 : ℤ) < 0
  decide

/-- Decoding has a meaning if the text ends in padding, or two bytes come after the terminator. -/
theorem decodeBase64_ok {s rest : List Byte} (hnoNul : NoNul s)
    (hroom : rest.length = 2 ∨ ∃ t, s = t ++ [0x3D]) :
    ∃ n data, decodeBase64 (s ++ 0 :: rest) = .ok (n, data) := by
  unfold decodeBase64
  rw [strlen_append hnoNul]
  dsimp only
  by_cases hmod : 4 * (s.length / 4) ≠ s.length
  · rw [if_pos hmod]
    exact ⟨_, _, rfl⟩
  · rw [if_neg hmod]
    by_cases hlast : s.length ≠ 0 ∧ (s ++ 0 :: rest).getD (s.length - 1) 0 = 0x3D
    · have hpos := hlast.1
      have hgroup : (s.drop (4 * (s.length / 4 - 1))).length = 4 := by
        rw [List.length_drop]
        omega
      rw [if_pos hlast, if_pos hlast,
        List.drop_append_of_le_length (show 4 * (s.length / 4 - 1) ≤ s.length by omega)]
      split_ifs
      · exact ⟨_, _, rfl⟩
      all_goals
        match s.drop (4 * (s.length / 4 - 1)), hgroup with
        | [c0, c1, c2, c3], _ => exact ⟨_, _, rfl⟩
    · rw [if_neg hlast, if_neg hlast]
      by_cases hbefore : s.length ≠ 0 ∧ (s ++ 0 :: rest).getD (s.length - 2) 0 = 0x3D
      · have hlength : rest.length = 2 := by
          rcases hroom with hlength | ⟨t, rfl⟩
          · exact hlength
          · refine absurd ⟨hbefore.1, ?_⟩ hlast
            rw [List.getD_append _ _ _ _ (by omega), List.length_append, List.length_singleton,
              Nat.add_sub_cancel, List.getD_append_right _ _ _ _ le_rfl, Nat.sub_self]
            rfl
        rw [if_pos hbefore, not_not.mp hmod, List.drop_left]
        match rest, hlength with
        | [x, y], _ => exact ⟨_, _, rfl⟩
      · rw [if_neg hbefore]
        exact ⟨_, _, rfl⟩

/-! What an encoded text of a token stands for -/

/-- The character of a token for six bits. -/
def urlChar (c : Byte) : Byte := toBase64url (Ebcdic.toIso88591 c)

end JsonWebToken
end ZoweCommon
