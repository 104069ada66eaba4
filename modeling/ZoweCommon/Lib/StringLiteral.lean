import Mathlib.Data.List.Forall2
import Mathlib.Data.Nat.Digits.Lemmas
import ZoweCommon.Lib.Hexadecimal

/-! The string literals of JavaScript that stand in double quotes, as texts in UTF-8. -/
namespace StringLiteral

open Hexadecimal (Octet)

def utf8 (c : Char) : List Octet := (String.utf8EncodeChar c).map UInt8.toBitVec

theorem length_utf8 (c : Char) : (utf8 c).length = c.utf8Size := by
  unfold utf8
  rw [List.length_map, String.length_utf8EncodeChar]

theorem length_utf8_le_four (c : Char) : (utf8 c).length ≤ 4 := by
  rw [length_utf8]
  exact c.utf8Size_le_four

theorem length_utf8_le_two {c : Char} (h : c.toNat < 0x800) : (utf8 c).length ≤ 2 := by
  have hval : c.val ≤ UInt32.ofNatLT 0x7FF (by decide) :=
    UInt32.le_iff_toNat_le.mpr (Nat.le_of_lt_succ h)
  rw [length_utf8]
  unfold Char.utf8Size
  dsimp only
  rw [if_pos hval]
  split_ifs <;> omega

theorem length_utf8_of_lt {c : Char} (h : c.toNat < 0x80) : (utf8 c).length = 1 := by
  have hval : c.val ≤ UInt32.ofNatLT 0x7F (by decide) :=
    UInt32.le_iff_toNat_le.mpr (Nat.le_of_lt_succ h)
  rw [length_utf8]
  unfold Char.utf8Size
  exact if_pos hval

/-- No quote, no backslash and no end of a line. -/
def IsPlain (b : Octet) : Prop := b ≠ 0x22 ∧ b ≠ 0x5C ∧ b ≠ 0x0A ∧ b ≠ 0x0D

instance (b : Octet) : Decidable (IsPlain b) := inferInstanceAs (Decidable (_ ∧ _ ∧ _ ∧ _))

/-- What comes after the backslash, and the character that it stands for. -/
def singleEscapes : List (Octet × Octet) :=
  [(0x27, 0x27), (0x22, 0x22), (0x5C, 0x5C), (0x62, 0x08), (0x66, 0x0C), (0x6E, 0x0A),
    (0x72, 0x0D), (0x74, 0x09), (0x76, 0x0B)]

def lineTerminators : List (List Octet) :=
  [[0x0A], [0x0D], [0x0D, 0x0A], [0xE2, 0x80, 0xA8], [0xE2, 0x80, 0xA9]]

/-- Characters that do not stand for themselves after a backslash. -/
def specialChars : List Char :=
  ['\'', '"', '\\', 'b', 'f', 'n', 'r', 't', 'v', 'x', 'u', '0', '1', '2', '3', '4', '5', '6', '7',
    '\n', '\r', Char.ofNat 0x2028, Char.ofNat 0x2029]

def octal (digits : List Octet) : ℕ := Nat.ofDigits 8 (digits.reverse.map fun b => b.toNat - 0x30)

def IsHex (length : ℕ) (digits : List Octet) : Prop :=
  digits.length = length ∧ ∀ b ∈ digits, Hexadecimal.isDigit b

/-- What comes after a backslash, and what the two stand for. -/
inductive Escape : List Octet → List Octet → Prop
  | single {c v : Octet} (h : (c, v) ∈ singleEscapes) : Escape [c] [v]
  | octal {digits : List Octet} {c : Char} (hlength : digits.length ≤ 3)
      (hdigits : ∀ b ∈ digits, 0x30 ≤ b.toNat ∧ b.toNat < 0x38) (hne : digits ≠ [])
      (hvalue : octal digits = c.toNat) (hlt : c.toNat < 256) : Escape digits (utf8 c)
  | hex {digits : List Octet} {c : Char} (hdigits : IsHex 2 digits)
      (hvalue : Hexadecimal.value digits = c.toNat) : Escape (0x78 :: digits) (utf8 c)
  | unit {digits : List Octet} {c : Char} (hdigits : IsHex 4 digits)
      (hvalue : Hexadecimal.value digits = c.toNat) : Escape (0x75 :: digits) (utf8 c)
  | surrogates {high low : List Octet} {c : Char} (hhigh : IsHex 4 high) (hlow : IsHex 4 low)
      (hvalue : 0x10000 + (Hexadecimal.value high - 0xD800) * 0x400 +
        (Hexadecimal.value low - 0xDC00) = c.toNat) (hrange : 0xD800 ≤ Hexadecimal.value high)
      (hrange' : 0xDC00 ≤ Hexadecimal.value low ∧ Hexadecimal.value low < 0xE000) :
      Escape (0x75 :: (high ++ 0x5C :: 0x75 :: low)) (utf8 c)
  | point {digits : List Octet} {n : ℕ} {c : Char} (hdigits : IsHex (n + 1) digits)
      (hvalue : Hexadecimal.value digits = c.toNat) :
      Escape (0x75 :: 0x7B :: (digits ++ [0x7D])) (utf8 c)
  | continuation {ending : List Octet} (h : ending ∈ lineTerminators) : Escape ending []
  | other {c : Char} (h : c ∉ specialChars) : Escape (utf8 c) (utf8 c)

theorem octal_lt {digits : List Octet} (h : ∀ b ∈ digits, 0x30 ≤ b.toNat ∧ b.toNat < 0x38) :
    octal digits < 8 ^ digits.length := by
  have hlt := @Nat.ofDigits_lt_base_pow_length 8 (digits.reverse.map fun b => b.toNat - 0x30)
    (by omega) (by
      intro d hd
      obtain ⟨b, hb, rfl⟩ := List.mem_map.mp hd
      have hrange := h b (List.mem_reverse.mp hb)
      omega)
  rwa [List.length_map, List.length_reverse] at hlt

theorem hex_lt {digits : List Octet} (h : ∀ b ∈ digits, Hexadecimal.isDigit b) :
    Hexadecimal.value digits < 16 ^ digits.length := by
  induction digits using List.reverseRecOn with
  | nil => exact Nat.one_pos
  | append_singleton digits b ih =>
    have hlt := ih fun c hc => h c (List.mem_append_left _ hc)
    obtain ⟨d, hd⟩ := Option.isSome_iff_exists.mp (h b (List.mem_append_right _ List.mem_cons_self))
    have hdigit := Hexadecimal.digit?_lt hd
    rw [Hexadecimal.value_concat, hd, List.length_append, List.length_singleton, pow_succ,
      Option.getD_some]
    omega

/-- What an escape stands for is no longer than what comes after the backslash. -/
theorem Escape.length_le {text value : List Octet} (h : Escape text value) :
    value.length ≤ text.length := by
  cases h with
  | single h => exact le_rfl
  | @octal digits c hlength hdigits hne hvalue hlt =>
    have hpos : 0 < text.length := List.length_pos_iff.mpr hne
    rcases Nat.lt_or_ge c.toNat 0x80 with hsmall | hlarge
    · rw [length_utf8_of_lt hsmall]
      exact hpos
    · have htwo := @length_utf8_le_two c (by omega)
      have hpow := octal_lt hdigits
      have hlong : 2 ≤ text.length := by
        by_contra hshort
        have hone : text.length = 1 := by omega
        rw [hvalue, hone] at hpow
        omega
      omega
  | @hex digits c hdigits hvalue =>
    have hpow := hex_lt hdigits.2
    rw [hdigits.1, hvalue] at hpow
    have htwo := @length_utf8_le_two c (by omega)
    rw [List.length_cons, hdigits.1]
    omega
  | @unit digits c hdigits hvalue =>
    have hfour := length_utf8_le_four c
    rw [List.length_cons, hdigits.1]
    omega
  | @surrogates high low c hhigh hlow hvalue hrange hrange' =>
    have hfour := length_utf8_le_four c
    rw [List.length_cons, List.length_append, hhigh.1]
    omega
  | @point digits n c hdigits hvalue =>
    have hfour := length_utf8_le_four c
    rw [List.length_cons, List.length_cons, List.length_append, hdigits.1, List.length_singleton]
    omega
  | continuation h => exact Nat.zero_le _
  | other h => exact le_rfl

/-- What stands between the quotes, and the value of the literal. -/
inductive Body : List Octet → List Octet → Prop
  | nil : Body [] []
  | plain {c : Octet} {text value : List Octet} (hc : IsPlain c) (h : Body text value) :
      Body (c :: text) (c :: value)
  | escape {escape v text value : List Octet} (hescape : Escape escape v) (h : Body text value) :
      Body (0x5C :: (escape ++ text)) (v ++ value)

def Denotes (literal value : List Octet) : Prop :=
  ∃ body, Body body value ∧ literal = 0x22 :: (body ++ [0x22])

def IsClean (value : List Octet) : Prop := ∀ b ∈ value, IsPlain b

instance (value : List Octet) : Decidable (IsClean value) := List.decidableBAll IsPlain value

theorem Body.length_le {text value : List Octet} (h : Body text value) :
    value.length ≤ text.length := by
  induction h with
  | nil => exact le_rfl
  | plain hc h ih => exact Nat.succ_le_succ ih
  | escape hescape h ih =>
    have hle := hescape.length_le
    rw [List.length_cons, List.length_append, List.length_append]
    omega

theorem Body.isClean {text value : List Octet} (h : Body text value)
    (hlength : text.length ≤ value.length) : IsClean value := by
  induction h with
  | nil => exact List.forall_mem_nil _
  | plain hc h ih => exact List.forall_mem_cons.mpr ⟨hc, ih (Nat.le_of_succ_le_succ hlength)⟩
  | escape hescape h ih =>
    have hle := hescape.length_le
    have hle' := h.length_le
    rw [List.length_cons, List.length_append, List.length_append] at hlength
    omega

theorem IsClean.body {value : List Octet} (h : IsClean value) : Body value value := by
  induction value with
  | nil => exact Body.nil
  | cons c value ih =>
    obtain ⟨hc, hvalue⟩ := List.forall_mem_cons.mp h
    exact Body.plain hc (ih hvalue)

theorem IsClean.denotes {value : List Octet} (h : IsClean value) :
    Denotes (0x22 :: (value ++ [0x22])) value := ⟨value, h.body, rfl⟩

theorem Denotes.length_le {literal value : List Octet} (h : Denotes literal value) :
    value.length + 2 ≤ literal.length := by
  obtain ⟨body, hbody, rfl⟩ := h
  have hle := hbody.length_le
  rw [List.length_cons, List.length_append, List.length_singleton]
  omega

/-- The shortest of the literals have nothing but the value between the quotes. -/
theorem Denotes.isClean {literal value : List Octet} (h : Denotes literal value)
    (hlength : literal.length ≤ value.length + 2) : IsClean value := by
  obtain ⟨body, hbody, rfl⟩ := h
  rw [List.length_cons, List.length_append, List.length_singleton] at hlength
  exact hbody.isClean (by omega)

end StringLiteral
