import Mathlib.Data.List.TakeDrop
import ZoweCommon.Encodings.Base32
import ZoweCommon.Lib.PaddedBase32

/-! Which bytes come back from base 32. -/
namespace ZoweCommon
namespace Encodings

open PaddedBase32

/-- Whatever the buffers, if they are large enough, encoding and decoding return the bytes. -/
def RoundTrips32 (pf : Platform) (useEBCDIC : Bool) (data : List Byte) : Prop :=
  ∀ outputLength, IsInt32 outputLength → 8 * ((data.length + 4) / 5 : ℕ) + 1 ≤ outputLength →
    ∃ text : List Byte, base32Encode pf RFC4648 data outputLength useEBCDIC =
        .ok (0, text ++ [0], (text.length + 1 : ℤ)) ∧
      ∀ outputLength', IsInt32 outputLength' → 5 * ((data.length + 4) / 5 : ℕ) ≤ outputLength' →
        base32Decode pf RFC4648 text outputLength' useEBCDIC =
          .ok (0, data, (data.length : ℤ))

/-- The bytes that are not masked and that are shifted to the right: all but the first of the last
group. -/
def unmasked (data : List Byte) : List Byte := (data.drop (data.length / 5 * 5)).tail

/-- The character for five bits. -/
def char32 (pf : Platform) (useEBCDIC : Bool) (q : Quintet) : Byte :=
  (if useEBCDIC then EBCDICEncodeTable pf.charset else ASCIIEncodeTable).getD q.toNat 0

def TablesFit (pf : Platform) (useEBCDIC : Bool) : Prop :=
  useEBCDIC = true → pf.charset = .ebcdic ∧ pf.signedChar = false

section

variable (pf : Platform) (a b c d e : Byte)

/-! Indices -/

theorem and_mask (x : BitVec 32) : x &&& 0x1f = (x.truncate 5).zeroExtend 32 := by
  apply BitVec.eq_of_toNat_eq
  rw [BitVec.toNat_and, BitVec.toNat_setWidth, BitVec.toNat_setWidth]
  have hmod := Nat.and_two_pow_sub_one_eq_mod x.toNat 5
  have hlt : x.toNat % 2 ^ 5 < 2 ^ 5 := Nat.mod_lt _ (by decide)
  rw [Nat.mod_eq_of_lt (b := 2 ^ 32) (by omega)]
  exact hmod

theorem getLsbD_charInt {i : ℕ} (hi : i < 8) : (pf.charInt a).getLsbD i = a.getLsbD i := by
  unfold Platform.charInt
  split_ifs
  · rw [BitVec.getLsbD_signExtend, if_pos hi, decide_eq_true (by omega), Bool.true_and]
  · rw [BitVec.getLsbD_setWidth, decide_eq_true (by omega), Bool.true_and]

theorem charInt_and : pf.charInt a &&& 0xff = a.zeroExtend 32 := by
  apply BitVec.eq_of_getLsbD_eq
  intro i hi
  rw [BitVec.getLsbD_and, BitVec.getLsbD_setWidth, decide_eq_true hi, Bool.true_and]
  by_cases hlow : i < 8
  · have hmask : (0xff : BitVec 32).getLsbD i = true := by
      have hall : ∀ i : Fin 8, (0xff : BitVec 32).getLsbD i = true := by decide
      exact hall ⟨i, hlow⟩
    rw [getLsbD_charInt pf a hlow, hmask, Bool.and_true]
  · have hmask : (0xff : BitVec 32).getLsbD i = false := by
      have hall : ∀ i : Fin 32, ¬(i : ℕ) < 8 → (0xff : BitVec 32).getLsbD i = false := by decide
      exact hall ⟨i, hi⟩ hlow
    rw [hmask, Bool.and_false, BitVec.getLsbD_of_ge a i (by omega)]

theorem truncate_shiftLeft {x : BitVec 32} (hx : ∀ i < 8, x.getLsbD i = a.getLsbD i) (k : ℕ) :
    (x <<< k).truncate 5 = (a <<< k).truncate 5 := by
  apply BitVec.eq_of_getLsbD_eq
  intro i hi
  simp only [BitVec.getLsbD_setWidth, BitVec.getLsbD_shiftLeft]
  rw [hx (i - k) (by omega)]
  simp only [decide_eq_true (show i < 32 by omega), decide_eq_true (show i < 8 by omega)]

theorem truncate_sshiftRight {x : BitVec 32} (hx : ∀ i < 8, x.getLsbD i = a.getLsbD i) {k : ℕ}
    (hk : k ≤ 3) : (x.sshiftRight k).truncate 5 = (a >>> k).truncate 5 := by
  apply BitVec.eq_of_getLsbD_eq
  intro i hi
  simp only [BitVec.getLsbD_setWidth, BitVec.getLsbD_sshiftRight, BitVec.getLsbD_ushiftRight]
  rw [if_pos (by omega), hx (k + i) (by omega)]
  simp only [show ¬32 ≤ i by omega, decide_false, Bool.not_false, Bool.true_and]

/-- A byte without a sign bit that is shifted to less than five bits. -/
theorem sshiftRight_eq {x : BitVec 32} (hx : x = a.zeroExtend 32) {k : ℕ} (hk : 3 ≤ k) :
    x.sshiftRight k = ((a >>> k).truncate 5).zeroExtend 32 := by
  have hmsb : x.msb = false := by
    rw [hx, BitVec.msb_eq_getLsbD_last, BitVec.getLsbD_setWidth,
      BitVec.getLsbD_of_ge a _ (by decide), Bool.and_false]
  have hlt : a.toNat >>> k < 2 ^ 5 := by
    have ha := a.isLt
    have hle : a.toNat >>> k ≤ a.toNat >>> 3 := by
      obtain ⟨j, rfl⟩ := Nat.exists_eq_add_of_le hk
      rw [Nat.shiftRight_add]
      exact Nat.shiftRight_le _ _
    have hthree : a.toNat >>> 3 = a.toNat / 8 := Nat.shiftRight_eq_div_pow _ _
    omega
  rw [BitVec.sshiftRight_eq_of_msb_false hmsb, hx]
  apply BitVec.eq_of_toNat_eq
  simp only [BitVec.toNat_ushiftRight, BitVec.toNat_setWidth]
  have ha := a.isLt
  rw [Nat.mod_eq_of_lt (by omega), Nat.mod_eq_of_lt hlt, Nat.mod_eq_of_lt (by omega)]

end

section

variable {pf : Platform} {useEBCDIC : Bool} {a b : Byte} {x y : BitVec 32} {data : List Byte}

/-- An `int` whose last eight bits are those of a byte. -/
def HasByte (x : BitVec 32) (a : Byte) : Prop := ∀ i < 8, x.getLsbD i = a.getLsbD i

theorem hasByte_charInt (pf : Platform) (a : Byte) : HasByte (pf.charInt a) a :=
  fun _ hi => getLsbD_charInt pf a hi

theorem hasByte_zeroExtend (a : Byte) : HasByte (a.zeroExtend 32) a := by
  intro i hi
  rw [BitVec.getLsbD_setWidth, decide_eq_true (by omega), Bool.true_and]

theorem indexLeft (hx : HasByte x a) (k : ℕ) :
    x <<< k &&& 0x1f = ((a <<< k).truncate 5).zeroExtend 32 := by
  rw [and_mask, truncate_shiftLeft a hx]

theorem indexRight (hx : HasByte x a) {k : ℕ} (hk : k ≤ 3) :
    x.sshiftRight k &&& 0x1f = ((a >>> k).truncate 5).zeroExtend 32 := by
  rw [and_mask, truncate_sshiftRight a hx hk]

theorem indexBoth (hx : HasByte x a) (k : ℕ) (hy : y = b.zeroExtend 32) {j : ℕ} (hj : 3 ≤ j) :
    (x <<< k &&& 0x1f) ||| y.sshiftRight j =
      ((a <<< k).truncate 5 ||| (b >>> j).truncate 5).zeroExtend 32 := by
  rw [indexLeft hx, sshiftRight_eq b hy hj]
  exact BitVec.setWidth_or.symm

theorem indexLast (hx : HasByte x a) : x &&& 0x1f = (a.truncate 5).zeroExtend 32 := by
  have hshift := indexLeft hx 0
  rwa [BitVec.shiftLeft_zero, BitVec.shiftLeft_zero] at hshift

theorem or_zero_shift (q : Quintet) (k : ℕ) : q ||| ((0 : Byte) >>> k).truncate 5 = q := by
  simp

/-! Encoding -/

theorem lookup_encodeTable (pf : Platform) (useEBCDIC : Bool) (q : Quintet) :
    lookup (if useEBCDIC then EBCDICEncodeTable pf.charset else ASCIIEncodeTable)
      (q.zeroExtend 32) = .ok (char32 pf useEBCDIC q) := by
  obtain ⟨charset, signedChar⟩ := pf
  have hall : ∀ useEBCDIC, ∀ q : Quintet,
      lookup (if useEBCDIC then EBCDICEncodeTable charset else ASCIIEncodeTable)
        (q.zeroExtend 32) = .ok (char32 ⟨charset, signedChar⟩ useEBCDIC q) := by
    cases charset <;> cases signedChar <;> decide +kernel
  exact hall useEBCDIC q

theorem encodeFullGroup_eq (pf : Platform) (useEBCDIC : Bool) (a b c d e : Byte) :
    encodeFullGroup (if useEBCDIC then EBCDICEncodeTable pf.charset else ASCIIEncodeTable)
      (pf.charInt a &&& 0xff) (pf.charInt b &&& 0xff) (pf.charInt c &&& 0xff)
      (pf.charInt d &&& 0xff) (pf.charInt e &&& 0xff) =
    .ok [char32 pf useEBCDIC (quintet0 a), char32 pf useEBCDIC (quintet1 a b),
      char32 pf useEBCDIC (quintet2 b), char32 pf useEBCDIC (quintet3 b c),
      char32 pf useEBCDIC (quintet4 c d), char32 pf useEBCDIC (quintet5 d),
      char32 pf useEBCDIC (quintet6 d e), char32 pf useEBCDIC (quintet7 e)] := by
  have hbyte := hasByte_zeroExtend
  unfold encodeFullGroup quintet0 quintet1 quintet2 quintet3 quintet4 quintet5 quintet6 quintet7
  rw [charInt_and, charInt_and, charInt_and, charInt_and, charInt_and,
    indexRight (hbyte a) (k := 3) (by decide), indexBoth (hbyte a) 2 rfl (j := 6) (by decide),
    indexRight (hbyte b) (k := 1) (by decide), indexBoth (hbyte b) 4 rfl (j := 4) (by decide),
    indexBoth (hbyte c) 1 rfl (j := 7) (by decide), indexRight (hbyte d) (k := 2) (by decide),
    indexBoth (hbyte d) 3 rfl (j := 5) (by decide), indexLast (hbyte e)]
  simp only [lookup_encodeTable, Exec.ok_bind]
  rfl

/-- A byte that is not masked is what it is, unless it counts as negative. -/
theorem charInt_eq (h : pf.signedChar = true → a.msb = false) : pf.charInt a = a.zeroExtend 32 := by
  unfold Platform.charInt
  split_ifs with hsigned
  · exact BitVec.signExtend_eq_setWidth_of_msb_false (h hsigned)
  · rfl

theorem unmasked_group (a b c d e : Byte) (data : List Byte) :
    unmasked (a :: b :: c :: d :: e :: data) = unmasked data := by
  unfold unmasked
  have hlength : (a :: b :: c :: d :: e :: data).length / 5 * 5 = data.length / 5 * 5 + 5 := by
    simp only [List.length_cons]
    omega
  rw [hlength]
  rfl

/-- Nothing unmasked counts as negative. -/
def NoneNegative (pf : Platform) (data : List Byte) : Prop :=
  pf.signedChar = true → ∀ c ∈ unmasked data, c.msb = false

theorem encodeGroups32_eq (h : NoneNegative pf data) (equals : Byte) :
    encodeGroups32 pf (if useEBCDIC then EBCDICEncodeTable pf.charset else ASCIIEncodeTable)
      equals data = .ok (PaddedBase32.encode (char32 pf useEBCDIC) equals data) := by
  have hbyte := hasByte_charInt pf
  unfold NoneNegative at h
  fun_induction PaddedBase32.encode (char32 pf useEBCDIC) equals data with
  | case1 a b c d e data ih =>
    rw [unmasked_group] at h
    rw [encodeGroups32, encodeFullGroup_eq, Exec.ok_bind, ih h]
    rfl
  | case2 a b c d =>
    have hb := charInt_eq fun hsigned => h hsigned b (by simp [unmasked])
    have hc := charInt_eq fun hsigned => h hsigned c (by simp [unmasked])
    have hd := charInt_eq fun hsigned => h hsigned d (by simp [unmasked])
    unfold encodeGroups32 quintet0 quintet1 quintet2 quintet3 quintet4 quintet5 quintet6
    dsimp only
    rw [indexRight (hbyte a) (k := 3) (by decide), indexBoth (hbyte a) 2 hb (j := 6) (by decide),
      indexRight (hbyte b) (k := 1) (by decide), indexBoth (hbyte b) 4 hc (j := 4) (by decide),
      indexBoth (hbyte c) 1 hd (j := 7) (by decide), indexRight (hbyte d) (k := 2) (by decide),
      indexLeft (hbyte d) 3, or_zero_shift]
    simp only [lookup_encodeTable, Exec.ok_bind]
    rfl
  | case3 a b c =>
    have hb := charInt_eq fun hsigned => h hsigned b (by simp [unmasked])
    have hc := charInt_eq fun hsigned => h hsigned c (by simp [unmasked])
    unfold encodeGroups32 quintet0 quintet1 quintet2 quintet3 quintet4
    dsimp only
    rw [indexRight (hbyte a) (k := 3) (by decide), indexBoth (hbyte a) 2 hb (j := 6) (by decide),
      indexRight (hbyte b) (k := 1) (by decide), indexBoth (hbyte b) 4 hc (j := 4) (by decide),
      indexLeft (hbyte c) 1, or_zero_shift]
    simp only [lookup_encodeTable, Exec.ok_bind]
    rfl
  | case4 a b =>
    have hb := charInt_eq fun hsigned => h hsigned b (by simp [unmasked])
    unfold encodeGroups32 quintet0 quintet1 quintet2 quintet3
    dsimp only
    rw [indexRight (hbyte a) (k := 3) (by decide), indexBoth (hbyte a) 2 hb (j := 6) (by decide),
      indexRight (hbyte b) (k := 1) (by decide), indexLeft (hbyte b) 4, or_zero_shift]
    simp only [lookup_encodeTable, Exec.ok_bind]
    rfl
  | case5 a =>
    unfold encodeGroups32 quintet0 quintet1
    dsimp only
    rw [indexRight (hbyte a) (k := 3) (by decide), indexLeft (hbyte a) 2, or_zero_shift]
    simp only [lookup_encodeTable, Exec.ok_bind]
    rfl
  | case6 => rfl

/-! Negative indices -/

theorem lookup_of_msb {α : Type} (table : List α) (h : x.msb = true) :
    lookup table x = .error .undefinedBehaviour :=
  if_pos (BitVec.toInt_neg_of_msb_true h)

theorem lookup_negative {α : Type} (table : List α) (hsigned : pf.signedChar = true)
    (h : b.msb = true) (k : ℕ) :
    lookup table (x ||| (pf.charInt b).sshiftRight k) = .error .undefinedBehaviour := by
  have hmsb : (b.signExtend 32).msb = true := by
    rw [BitVec.msb_eq_getLsbD_last, BitVec.getLsbD_signExtend, if_neg (by decide), h]
    rfl
  apply lookup_of_msb
  unfold Platform.charInt
  rw [if_pos hsigned, BitVec.msb_or, BitVec.msb_sshiftRight, hmsb, Bool.or_true]

/-- A byte that counts as negative makes an index so. -/
theorem encodeGroups32_negative (hsigned : pf.signedChar = true)
    (h : ∃ c ∈ unmasked data, c.msb = true) (equals : Byte) :
    encodeGroups32 pf (if useEBCDIC then EBCDICEncodeTable pf.charset else ASCIIEncodeTable)
      equals data = .error .undefinedBehaviour := by
  have hbyte := hasByte_charInt pf
  have hplain : ∀ {c : Byte}, ¬c.msb = true → pf.charInt c = c.zeroExtend 32 :=
    fun hmsb => charInt_eq fun _ => Bool.eq_false_iff.mpr hmsb
  induction data using PaddedBase32.encode.induct with
  | case1 a b c d e data ih =>
    rw [unmasked_group] at h
    rw [encodeGroups32, encodeFullGroup_eq, Exec.ok_bind, ih h]
    rfl
  | case2 a b c d =>
    obtain ⟨x, hx, hmsb⟩ := h
    have hcases : x = b ∨ x = c ∨ x = d := by simpa [unmasked] using hx
    unfold encodeGroups32
    dsimp only
    rw [indexRight (hbyte a) (k := 3) (by decide), lookup_encodeTable, Exec.ok_bind]
    by_cases hb : b.msb = true
    · rw [lookup_negative _ hsigned hb]
      rfl
    rw [indexBoth (hbyte a) 2 (hplain hb) (j := 6) (by decide), lookup_encodeTable, Exec.ok_bind,
      indexRight (hbyte b) (k := 1) (by decide), lookup_encodeTable, Exec.ok_bind]
    by_cases hc : c.msb = true
    · rw [lookup_negative _ hsigned hc]
      rfl
    rw [indexBoth (hbyte b) 4 (hplain hc) (j := 4) (by decide), lookup_encodeTable, Exec.ok_bind]
    have hd : d.msb = true := by
      rcases hcases with rfl | rfl | rfl
      · exact absurd hmsb hb
      · exact absurd hmsb hc
      · exact hmsb
    rw [lookup_negative _ hsigned hd]
    rfl
  | case3 a b c =>
    obtain ⟨x, hx, hmsb⟩ := h
    have hcases : x = b ∨ x = c := by simpa [unmasked] using hx
    unfold encodeGroups32
    dsimp only
    rw [indexRight (hbyte a) (k := 3) (by decide), lookup_encodeTable, Exec.ok_bind]
    by_cases hb : b.msb = true
    · rw [lookup_negative _ hsigned hb]
      rfl
    rw [indexBoth (hbyte a) 2 (hplain hb) (j := 6) (by decide), lookup_encodeTable, Exec.ok_bind,
      indexRight (hbyte b) (k := 1) (by decide), lookup_encodeTable, Exec.ok_bind]
    have hc : c.msb = true := by
      rcases hcases with rfl | rfl
      · exact absurd hmsb hb
      · exact hmsb
    rw [lookup_negative _ hsigned hc]
    rfl
  | case4 a b =>
    obtain ⟨x, hx, hmsb⟩ := h
    obtain rfl : x = b := by simpa [unmasked] using hx
    unfold encodeGroups32
    dsimp only
    rw [indexRight (hbyte a) (k := 3) (by decide), lookup_encodeTable, Exec.ok_bind,
      lookup_negative _ hsigned hmsb]
    rfl
  | case5 a =>
    obtain ⟨x, hx, -⟩ := h
    simp [unmasked] at hx
  | case6 =>
    obtain ⟨x, hx, -⟩ := h
    simp [unmasked] at hx

/-! Decoding -/

/-- What is put out for a group are its octets. -/
theorem byte0_eq (q0 q1 : Quintet) :
    ((q0.zeroExtend 32 <<< 3) ||| (q1.zeroExtend 32).sshiftRight 2).truncate 8 = octet0 q0 q1 := by
  unfold octet0
  ext i hi
  have hcases : i = 0 ∨ i = 1 ∨ i = 2 ∨ i = 3 ∨ i = 4 ∨ i = 5 ∨ i = 6 ∨ i = 7 := by omega
  rcases hcases with rfl | rfl | rfl | rfl | rfl | rfl | rfl | rfl <;>
    simp [BitVec.getElem_sshiftRight]

theorem byte1_eq (q1 q2 q3 : Quintet) :
    ((q1.zeroExtend 32 <<< 6) ||| (q2.zeroExtend 32 <<< 1) |||
      ((q3.zeroExtend 32).sshiftRight 4 &&& 0xff)).truncate 8 = octet1 q1 q2 q3 := by
  unfold octet1
  ext i hi
  have hcases : i = 0 ∨ i = 1 ∨ i = 2 ∨ i = 3 ∨ i = 4 ∨ i = 5 ∨ i = 6 ∨ i = 7 := by omega
  rcases hcases with rfl | rfl | rfl | rfl | rfl | rfl | rfl | rfl <;>
    simp [BitVec.getElem_sshiftRight]

theorem byte2_eq (q3 q4 : Quintet) :
    ((q3.zeroExtend 32 <<< 4) ||| ((q4.zeroExtend 32).sshiftRight 1 &&& 0xff)).truncate 8 =
      octet2 q3 q4 := by
  unfold octet2
  ext i hi
  have hcases : i = 0 ∨ i = 1 ∨ i = 2 ∨ i = 3 ∨ i = 4 ∨ i = 5 ∨ i = 6 ∨ i = 7 := by omega
  rcases hcases with rfl | rfl | rfl | rfl | rfl | rfl | rfl | rfl <;>
    simp [BitVec.getElem_sshiftRight]

theorem byte3_eq (q4 q5 q6 : Quintet) :
    ((q4.zeroExtend 32 <<< 7) ||| (q5.zeroExtend 32 <<< 2) |||
      ((q6.zeroExtend 32).sshiftRight 3 &&& 0xff)).truncate 8 = octet3 q4 q5 q6 := by
  unfold octet3
  ext i hi
  have hcases : i = 0 ∨ i = 1 ∨ i = 2 ∨ i = 3 ∨ i = 4 ∨ i = 5 ∨ i = 6 ∨ i = 7 := by omega
  rcases hcases with rfl | rfl | rfl | rfl | rfl | rfl | rfl | rfl <;>
    simp [BitVec.getElem_sshiftRight]

theorem byte4_eq (q6 q7 : Quintet) :
    ((q6.zeroExtend 32 <<< 5) ||| (q7.zeroExtend 32 &&& 0xff)).truncate 8 = octet4 q6 q7 := by
  unfold octet4
  ext i hi
  have hcases : i = 0 ∨ i = 1 ∨ i = 2 ∨ i = 3 ∨ i = 4 ∨ i = 5 ∨ i = 6 ∨ i = 7 := by omega
  rcases hcases with rfl | rfl | rfl | rfl | rfl | rfl | rfl | rfl <;> simp

theorem ne_of_quintet (q : Quintet) :
    (q.zeroExtend 32 : BitVec 32) ≠ -1 ∧ (q.zeroExtend 32 : BitVec 32) ≠ -2 := by
  have hall : ∀ q : Quintet,
      (q.zeroExtend 32 : BitVec 32) ≠ -1 ∧ (q.zeroExtend 32 : BitVec 32) ≠ -2 := by decide +kernel
  exact hall q

/-- Every character is in the table for decoding, and is no padding. -/
theorem lookup_decodeTable (h : TablesFit pf useEBCDIC) (q : Quintet) :
    char32 pf useEBCDIC q ≠ equals32 pf useEBCDIC ∧
      lookup (if useEBCDIC then EBCDICDecodeTable else ASCIIDecodeTable)
        (pf.charInt (char32 pf useEBCDIC q)) = .ok (q.zeroExtend 32) := by
  obtain ⟨charset, signedChar⟩ := pf
  cases useEBCDIC with
  | false =>
    have hall : ∀ q : Quintet, char32 ⟨charset, signedChar⟩ false q ≠
          equals32 ⟨charset, signedChar⟩ false ∧
        lookup ASCIIDecodeTable (Platform.charInt ⟨charset, signedChar⟩
          (char32 ⟨charset, signedChar⟩ false q)) = .ok (q.zeroExtend 32) := by
      cases charset <;> cases signedChar <;> decide +kernel
    exact hall q
  | true =>
    obtain ⟨hcharset, hsigned⟩ := h rfl
    dsimp only at hcharset hsigned
    subst hcharset hsigned
    have hall : ∀ q : Quintet, char32 ⟨.ebcdic, false⟩ true q ≠ equals32 ⟨.ebcdic, false⟩ true ∧
        lookup EBCDICDecodeTable (Platform.charInt ⟨.ebcdic, false⟩
          (char32 ⟨.ebcdic, false⟩ true q)) = .ok (q.zeroExtend 32) := by
      simp only [char32, equals32, EBCDICEncodeTable, List.map_cons, List.map_nil, Charset.char,
        Ebcdic.toIbm1047_packed]
      decide +kernel
    exact hall q

section Groups

variable {decodeTable : List (BitVec 32)} {equals : Byte} {char : Quintet → Byte}
  (hchar : ∀ q, char q ≠ equals ∧ lookup decodeTable (pf.charInt (char q)) = .ok (q.zeroExtend 32))

include hchar

theorem decodeChar_char (q : Quintet) (input : List Byte) :
    decodeChar pf decodeTable equals (char q :: input) = .ok (q.zeroExtend 32, input) := by
  unfold decodeChar
  dsimp only
  rw [if_neg (hchar q).1, (hchar q).2]
  rfl

omit hchar in
theorem decodeChar_equals (pf : Platform) (decodeTable : List (BitVec 32)) (equals : Byte)
    (input : List Byte) :
    decodeChar pf decodeTable equals (equals :: input) = .ok (-2, equals :: input) :=
  if_pos rfl

/-- The text of bytes is decoded to the bytes. -/
theorem decodeGroups32_encode (data output : List Byte) :
    decodeGroups32 pf decodeTable equals ((data.length + 4) / 5)
      (PaddedBase32.encode char equals data ++ [0]) output = .ok (0, output ++ data) := by
  have hread := decodeChar_char hchar
  have hpad := decodeChar_equals pf decodeTable equals
  have hne := fun q => (ne_of_quintet q).1
  have hne' := fun q => (ne_of_quintet q).2
  have hpadNe : ¬(-2 : BitVec 32) = -1 := by decide
  fun_induction PaddedBase32.encode char equals data generalizing output with
  | case1 a b c d e data ih =>
    have hlength : ((a :: b :: c :: d :: e :: data).length + 4) / 5 =
        (data.length + 4) / 5 + 1 := by
      simp only [List.length_cons]
      omega
    rw [hlength, decodeGroups32]
    simp only [List.cons_append, hread, Exec.ok_bind, hne, hne', or_self, if_false, decodedBytes,
      byte0_eq, byte1_eq, byte2_eq, byte3_eq, byte4_eq, octet0_quintets, octet1_quintets,
      octet2_quintets, octet3_quintets, octet4_quintets, if_true, ih]
    rw [List.append_assoc]
    rfl
  | case2 a b c d =>
    rw [show ([a, b, c, d].length + 4) / 5 = 0 + 1 by simp, decodeGroups32]
    simp only [List.cons_append, hread, hpad, hpadNe, Exec.ok_bind, hne, hne', or_self, if_false,
      decodedBytes, byte0_eq, byte1_eq, byte2_eq, byte3_eq, octet0_quintets, octet1_quintets,
      octet2_quintets, octet3_quintets, if_true]
    rfl
  | case3 a b c =>
    rw [show ([a, b, c].length + 4) / 5 = 0 + 1 by simp, decodeGroups32]
    simp only [List.cons_append, hread, hpad, hpadNe, Exec.ok_bind, hne, hne', or_self, if_false,
      decodedBytes, byte0_eq, byte1_eq, byte2_eq, octet0_quintets, octet1_quintets,
      octet2_quintets, if_true]
    rfl
  | case4 a b =>
    rw [show ([a, b].length + 4) / 5 = 0 + 1 by simp, decodeGroups32]
    simp only [List.cons_append, hread, hpad, hpadNe, Exec.ok_bind, hne, hne', or_self, if_false,
      decodedBytes, byte0_eq, byte1_eq, octet0_quintets, octet1_quintets, if_true]
    rfl
  | case5 a =>
    rw [show ([a].length + 4) / 5 = 0 + 1 by simp, decodeGroups32]
    simp only [List.cons_append, hread, hpad, hpadNe, Exec.ok_bind, hne, hne', or_self, if_false,
      decodedBytes, byte0_eq, octet0_quintets, if_true]
    rfl
  | case6 =>
    rw [List.append_nil]
    rfl

end Groups

end

section RoundTrip

variable {pf : Platform} {useEBCDIC : Bool} {data : List Byte}

theorem decodeChar_of_not_tablesFit (h : ¬TablesFit pf useEBCDIC) (q : Quintet)
    (input : List Byte) :
    decodeChar pf (if useEBCDIC then EBCDICDecodeTable else ASCIIDecodeTable)
        (equals32 pf useEBCDIC) (char32 pf useEBCDIC q :: input) = .ok (-1, input) ∨
      decodeChar pf (if useEBCDIC then EBCDICDecodeTable else ASCIIDecodeTable)
        (equals32 pf useEBCDIC) (char32 pf useEBCDIC q :: input) =
          .error .undefinedBehaviour := by
  obtain ⟨charset, signedChar⟩ := pf
  cases useEBCDIC with
  | false => exact absurd (fun hfalse => by cases hfalse) h
  | true =>
    cases charset with
    | ascii =>
      have hall : ∀ q : Quintet, char32 ⟨.ascii, signedChar⟩ true q ≠
            equals32 ⟨.ascii, signedChar⟩ true ∧
          lookup EBCDICDecodeTable (Platform.charInt ⟨.ascii, signedChar⟩
            (char32 ⟨.ascii, signedChar⟩ true q)) = .ok (-1) := by
        cases signedChar <;> decide +kernel
      left
      unfold decodeChar
      dsimp only
      rw [if_neg (hall q).1, if_pos rfl, (hall q).2]
      rfl
    | ebcdic =>
      cases signedChar with
      | false => exact absurd (fun _ => ⟨rfl, rfl⟩) h
      | true =>
        have hall : ∀ q : Quintet, char32 ⟨.ebcdic, true⟩ true q ≠ equals32 ⟨.ebcdic, true⟩ true ∧
            lookup EBCDICDecodeTable (Platform.charInt ⟨.ebcdic, true⟩
              (char32 ⟨.ebcdic, true⟩ true q)) = .error .undefinedBehaviour := by
          simp only [char32, equals32, EBCDICEncodeTable, List.map_cons, List.map_nil,
            Charset.char, Ebcdic.toIbm1047_packed]
          decide +kernel
        right
        unfold decodeChar
        dsimp only
        rw [if_neg (hall q).1, if_pos rfl, (hall q).2]
        rfl

theorem decodeGroups32_of_not_tablesFit (h : ¬TablesFit pf useEBCDIC) (q : Quintet) (n : ℕ)
    (input output result : List Byte) :
    decodeGroups32 pf (if useEBCDIC then EBCDICDecodeTable else ASCIIDecodeTable)
      (equals32 pf useEBCDIC) (n + 1) (char32 pf useEBCDIC q :: input) output ≠
        .ok (0, result) := by
  intro hresult
  rw [decodeGroups32] at hresult
  rcases decodeChar_of_not_tablesFit h q input with hfirst | hfirst
  · rw [hfirst, Exec.ok_bind] at hresult
    obtain ⟨⟨ch1, rest1⟩, -, hresult⟩ := Exec.bind_eq_ok.mp hresult
    obtain ⟨⟨ch2, rest2⟩, -, hresult⟩ := Exec.bind_eq_ok.mp hresult
    obtain ⟨⟨ch3, rest3⟩, -, hresult⟩ := Exec.bind_eq_ok.mp hresult
    obtain ⟨⟨ch4, rest4⟩, -, hresult⟩ := Exec.bind_eq_ok.mp hresult
    obtain ⟨⟨ch5, rest5⟩, -, hresult⟩ := Exec.bind_eq_ok.mp hresult
    obtain ⟨⟨ch6, rest6⟩, -, hresult⟩ := Exec.bind_eq_ok.mp hresult
    obtain ⟨⟨ch7, rest7⟩, -, hresult⟩ := Exec.bind_eq_ok.mp hresult
    dsimp only at hresult
    rw [if_pos (.inl rfl)] at hresult
    cases hresult
  · rw [hfirst] at hresult
    cases hresult

section Sizes

variable (hsize : 8 * ((data.length + 4) / 5) + 1 < 2147483648) {outputLength : ℤ}

include hsize

theorem base32Encode_eq (houtput : 8 * ((data.length + 4) / 5 : ℕ) + 1 ≤ outputLength) :
    base32Encode pf RFC4648 data outputLength useEBCDIC = do
      let text ← encodeGroups32 pf
        (if useEBCDIC then EBCDICEncodeTable pf.charset else ASCIIEncodeTable)
        (equals32 pf useEBCDIC) data
      return (0, text ++ [0], toInt32 (text.length + 1)) := by
  unfold base32Encode
  have hfits : ¬toInt32 (toInt32 ((toInt32 (data.length + 4)).tdiv 5 * 8) + 1) > outputLength := by
    rw [toInt32_of_isInt32 (n := (data.length : ℤ) + 4) ⟨by omega, by omega⟩,
      Int.tdiv_eq_ediv_of_nonneg (by omega),
      toInt32_of_isInt32 (n := ((data.length : ℤ) + 4) / 5 * 8) ⟨by omega, by omega⟩,
      toInt32_of_isInt32 ⟨by omega, by omega⟩]
    omega
  rw [if_neg (fun hne => hne rfl), if_neg hfits]

theorem base32Decode_eq {text : List Byte} (hlength : text.length = 8 * ((data.length + 4) / 5))
    (houtput : 5 * ((data.length + 4) / 5 : ℕ) ≤ outputLength) :
    base32Decode pf RFC4648 text outputLength useEBCDIC = do
      let (rc, output) ← decodeGroups32 pf
        (if useEBCDIC then EBCDICDecodeTable else ASCIIDecodeTable) (equals32 pf useEBCDIC)
        ((data.length + 4) / 5) (text ++ [0]) []
      if rc = 0 then return (rc, output, (output.length : ℤ))
      else return (rc, output, outputLength) := by
  unfold base32Decode
  have hint : toInt32 text.length = 8 * ((data.length + 4) / 5 : ℕ) := by
    rw [toInt32_of_isInt32 ⟨by omega, by omega⟩]
    omega
  dsimp only
  rw [hint, if_neg (fun hne => hne rfl), if_neg (fun hne => hne (Int.mul_tmod_right _ _)),
    toInt32_of_isInt32
      (n := 8 * (((data.length + 4) / 5 : ℕ) : ℤ) + 7) ⟨by omega, by omega⟩,
    Int.tdiv_eq_ediv_of_nonneg (by omega), Int.tdiv_eq_ediv_of_nonneg (by omega),
    toInt32_of_isInt32 ⟨by omega, by omega⟩, if_neg (by omega)]
  have hgroups : (8 * (((data.length + 4) / 5 : ℕ) : ℤ) / 8).toNat = (data.length + 4) / 5 := by
    omega
  rw [hgroups]

theorem base32Encode_of_noneNegative (h : NoneNegative pf data)
    (houtput : 8 * ((data.length + 4) / 5 : ℕ) + 1 ≤ outputLength) :
    base32Encode pf RFC4648 data outputLength useEBCDIC =
      .ok (0, PaddedBase32.encode (char32 pf useEBCDIC) (equals32 pf useEBCDIC) data ++ [0],
        ((PaddedBase32.encode (char32 pf useEBCDIC) (equals32 pf useEBCDIC) data).length + 1 : ℤ))
    := by
  have hlength := PaddedBase32.length_encode (char32 pf useEBCDIC) (equals32 pf useEBCDIC) data
  rw [base32Encode_eq hsize houtput, encodeGroups32_eq h, Exec.ok_bind,
    toInt32_of_isInt32 ⟨by omega, by omega⟩]
  rfl

end Sizes

theorem base32Decode_encode (hsize : 8 * ((data.length + 4) / 5) + 1 < 2147483648)
    (hfit : data = [] ∨ TablesFit pf useEBCDIC) {outputLength : ℤ}
    (houtput : 5 * ((data.length + 4) / 5 : ℕ) ≤ outputLength) :
    base32Decode pf RFC4648
      (PaddedBase32.encode (char32 pf useEBCDIC) (equals32 pf useEBCDIC) data) outputLength
      useEBCDIC = .ok (0, data, (data.length : ℤ)) := by
  have hlength := PaddedBase32.length_encode (char32 pf useEBCDIC) (equals32 pf useEBCDIC) data
  rw [base32Decode_eq hsize hlength houtput]
  rcases hfit with rfl | hfit
  · rfl
  · rw [decodeGroups32_encode (fun q => lookup_decodeTable hfit q)]
    rfl

/-- Bytes come back if and only if the tables fit each other and no byte counts as negative where
it is not masked. -/
theorem roundTrips32_iff (pf : Platform) (useEBCDIC : Bool) {data : List Byte}
    (hsize : 8 * ((data.length + 4) / 5) + 1 < 2147483648) :
    RoundTrips32 pf useEBCDIC data ↔
      data = [] ∨ TablesFit pf useEBCDIC ∧ NoneNegative pf data := by
  constructor
  · intro h
    obtain ⟨text, hencode, hdecode⟩ := h (8 * ((data.length + 4) / 5 : ℕ) + 1)
      ⟨by omega, by omega⟩ (Int.le_refl _)
    have hnone : NoneNegative pf data := by
      intro hsigned c hc
      by_contra hmsb
      rw [base32Encode_eq hsize (Int.le_refl _), encodeGroups32_negative hsigned
        ⟨c, hc, Bool.not_eq_false _ ▸ hmsb⟩] at hencode
      cases hencode
    refine or_iff_not_imp_left.mpr fun hne => ⟨?_, hnone⟩
    by_contra hfit
    rw [base32Encode_of_noneNegative hsize hnone (Int.le_refl _)] at hencode
    obtain ⟨q, rest, htext⟩ := PaddedBase32.exists_encode_cons (char32 pf useEBCDIC)
      (equals32 pf useEBCDIC) hne
    have heq : text = PaddedBase32.encode (char32 pf useEBCDIC) (equals32 pf useEBCDIC) data := by
      have hpair := congrArg (fun r => r.2.1) (Except.ok.inj hencode)
      exact (List.append_cancel_right hpair).symm
    have hlength := PaddedBase32.length_encode (char32 pf useEBCDIC) (equals32 pf useEBCDIC) data
    have hback := hdecode (5 * ((data.length + 4) / 5 : ℕ)) ⟨by omega, by omega⟩ (Int.le_refl _)
    rw [heq, base32Decode_eq hsize hlength (Int.le_refl _), htext] at hback
    obtain ⟨⟨rc, output⟩, hgroups, hrc⟩ := Exec.bind_eq_ok.mp hback
    obtain ⟨n, hn⟩ : ∃ n, (data.length + 4) / 5 = n + 1 := by
      have hpos := List.length_pos_iff.mpr hne
      exact ⟨(data.length + 4) / 5 - 1, by omega⟩
    rw [hn] at hgroups
    have hzero : rc = 0 := by
      by_contra hrc'
      dsimp only at hrc
      rw [if_neg hrc'] at hrc
      exact hrc' (congrArg Prod.fst (Except.ok.inj hrc))
    subst hzero
    exact decodeGroups32_of_not_tablesFit hfit q n _ _ _ hgroups
  · intro h outputLength _ houtput
    have hnone : NoneNegative pf data := by
      rcases h with rfl | h
      · exact fun _ c hc => absurd hc List.not_mem_nil
      · exact h.2
    exact ⟨_, base32Encode_of_noneNegative hsize hnone houtput,
      fun _ _ houtput' => base32Decode_encode hsize (h.imp_right And.left) houtput'⟩

theorem roundTrips32_M : RoundTrips32 ⟨.ascii, true⟩ false [0x4D] :=
  (roundTrips32_iff ⟨.ascii, true⟩ false (by decide)).mpr
    (.inr ⟨fun h => (by cases h), fun _ c hc => absurd hc List.not_mem_nil⟩)

/-- The second of two bytes counts as negative, and so does the index of the second character. -/
theorem not_roundTrips32 : ¬RoundTrips32 ⟨.ascii, true⟩ false [0x00, 0x80] := by
  intro h
  obtain ⟨text, hencode, -⟩ := h 9 (by decide) (by decide)
  cases hencode

end RoundTrip

end Encodings
end ZoweCommon
