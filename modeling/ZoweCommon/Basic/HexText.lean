import ZoweCommon.Basic.CLibrary
import ZoweCommon.Basic.Ebcdic
import ZoweCommon.Lib.Hexadecimal

/-! What `%x` writes and `strtoull` reads. -/
namespace ZoweCommon
namespace CLibrary

open Hexadecimal (isDigit)

theorem digit_digitChar {d : ℕ} (h : d < 16) : Hexadecimal.digit? (digitChar d) = some d := by
  have hall : ∀ d < 16, Hexadecimal.digit? (digitChar d) = some d := by decide
  exact hall d h

theorem formatX_eq (n : ℕ) :
    formatX 0 n = (if n = 0 then [0] else (Nat.digits 16 n).reverse).map digitChar := by
  unfold formatX List.leftpad
  rw [Nat.zero_sub]
  rfl

theorem digits_lt {n d : ℕ} (h : d ∈ if n = 0 then [0] else (Nat.digits 16 n).reverse) : d < 16 := by
  by_cases hn : n = 0
  · rw [if_pos hn] at h
    rw [List.mem_singleton.mp h]
    omega
  · rw [if_neg hn, List.mem_reverse] at h
    exact Nat.digits_lt_base (by omega) h

/-- `%x` writes numbers as they are read. -/
theorem formatX_isNumeral : Hexadecimal.IsNumeral (formatX 0) where
  ne_nil n := by
    rw [formatX_eq]
    by_cases hn : n = 0
    · rw [if_pos hn]
      exact List.cons_ne_nil _ _
    · rw [if_neg hn]
      simpa [Nat.digits_eq_nil_iff_eq_zero] using hn
  digits n b hb := by
    rw [formatX_eq] at hb
    obtain ⟨d, hd, rfl⟩ := List.mem_map.mp hb
    unfold isDigit
    rw [digit_digitChar (digits_lt hd)]
    rfl
  value n := by
    rw [formatX_eq, Hexadecimal.value_map fun d hd => digit_digitChar (digits_lt hd)]
    by_cases hn : n = 0
    · rw [if_pos hn, hn]
      rfl
    · rw [if_neg hn, Hexadecimal.foldl_digits]

/-- Leaves out the prefix of a number in base 16. -/
def dropPrefix0x : List Byte → List Byte
  | zero :: x :: digit :: text =>
    if zero = 0x30 ∧ (x = 0x78 ∨ x = 0x58) ∧ isDigit digit then digit :: text
    else zero :: x :: digit :: text
  | text => text

/-- `strtoull` with base 16: the value is clamped to what fits. -/
def strtoull16 (text : List Byte) : BitVec 64 :=
  let text := text.dropWhile fun b => isspace b.toInt
  let (negative, text) := splitSign text
  let n := Hexadecimal.value ((dropPrefix0x text).takeWhile isDigit)
  if 2 ^ 64 ≤ n then -1 else if negative then -BitVec.ofNat 64 n else BitVec.ofNat 64 n

theorem ne_of_isDigit {b : Byte} (h : isDigit b = true) :
    isspace b.toInt = false ∧ b ≠ 0x2D ∧ b ≠ 0x2B := by
  have hall : ∀ b : Byte, isDigit b = true → isspace b.toInt = false ∧ b ≠ 0x2D ∧ b ≠ 0x2B := by
    decide +kernel
  exact hall b h

theorem strtoull16_numeral {digits rest : List Byte} (hne : digits ≠ [])
    (hdigits : ∀ b ∈ digits, isDigit b) (hfits : Hexadecimal.value digits < 2 ^ 64)
    (hrest : ∀ b ∈ rest.head?, isDigit b = false ∧ b ≠ 0x78 ∧ b ≠ 0x58) :
    strtoull16 (digits ++ rest) = BitVec.ofNat 64 (Hexadecimal.value digits) := by
  obtain ⟨d, ds, rfl⟩ := List.exists_cons_of_ne_nil hne
  obtain ⟨hspace, hminus, hplus⟩ := ne_of_isDigit (hdigits d List.mem_cons_self)
  have hskip : ((d :: ds ++ rest).dropWhile fun b => isspace b.toInt) = d :: ds ++ rest := by
    rw [List.cons_append, List.dropWhile_cons_of_neg (by simp [hspace])]
  have hsign : splitSign (d :: ds ++ rest) = (false, d :: ds ++ rest) := by
    unfold splitSign
    rw [List.cons_append, List.head?_cons, if_neg (by simpa using hminus), if_neg (by simpa using hplus)]
  have hstarts : dropPrefix0x (d :: ds ++ rest) = d :: ds ++ rest := by
    have hx : ∀ x text, ds ++ rest = x :: text → x ≠ 0x78 ∧ x ≠ 0x58 := by
      intro x text htext
      cases ds with
      | nil =>
        rw [List.nil_append] at htext
        exact (hrest x (by rw [htext]; rfl)).2
      | cons e es =>
        rw [List.cons_append, List.cons.injEq] at htext
        have he := hdigits e (List.mem_cons_of_mem _ List.mem_cons_self)
        rw [htext.1] at he
        constructor
        · rintro rfl
          exact absurd he (by decide)
        · rintro rfl
          exact absurd he (by decide)
    rw [List.cons_append]
    match ds ++ rest, hx with
    | [], _ => rfl
    | [_], _ => rfl
    | x :: digit :: text, hx =>
      obtain ⟨hlower, hupper⟩ := hx x (digit :: text) rfl
      rw [dropPrefix0x, if_neg fun h => h.2.1.elim hlower hupper]
  have htake : ((d :: ds) ++ rest).takeWhile isDigit = d :: ds := by
    rw [List.takeWhile_append_of_pos hdigits]
    cases rest with
    | nil => rw [List.takeWhile_nil, List.append_nil]
    | cons b rest =>
      have hb := (hrest b rfl).1
      rw [List.takeWhile_cons_of_neg (by simp [hb]), List.append_nil]
  unfold strtoull16
  rw [hskip]
  dsimp only
  rw [hsign]
  dsimp only
  rw [hstarts, htake, if_neg (by omega)]
  rfl

end CLibrary

namespace Ebcdic

/-- The same in native characters, of a text in a buffer. -/
def strtoull16 (buffer : List Byte) : BitVec 64 :=
  CLibrary.strtoull16 (toASCIIUTF8 (CString.ofBytes buffer).bytes)

def toupper (c : Byte) : Byte :=
  let a := toIso88591 c
  if 0x61 ≤ a ∧ a ≤ 0x7A then toIbm1047 (a - 0x20) else c

theorem toupper_ne_zero {c : Byte} (h : c ≠ 0) : toupper c ≠ 0 := by
  have hall : ∀ c : Byte, c ≠ 0 → toupper c ≠ 0 := by
    simp only [toupper, toIbm1047_packed, toIso88591_packed]
    decide +kernel
  exact hall c h

def strupcase (s : CString) : CString where
  bytes := s.bytes.map toupper
  noNul b hb := by
    obtain ⟨c, hc, rfl⟩ := List.mem_map.mp hb
    exact toupper_ne_zero (s.noNul c hc)

end Ebcdic
end ZoweCommon
