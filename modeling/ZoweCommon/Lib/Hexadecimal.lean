import Mathlib.Data.Nat.Digits.Lemmas
import Mathlib.Data.List.TakeWhile

/-! Hexadecimal numerals in ASCII. -/
namespace Hexadecimal

abbrev Octet := BitVec 8

def digit? (b : Octet) : Option ℕ :=
  if 0x30 ≤ b.toNat ∧ b.toNat ≤ 0x39 then some (b.toNat - 0x30)
  else if 0x41 ≤ b.toNat ∧ b.toNat ≤ 0x46 then some (b.toNat - 0x37)
  else if 0x61 ≤ b.toNat ∧ b.toNat ≤ 0x66 then some (b.toNat - 0x57)
  else none

theorem digit?_lt {b : Octet} {value : ℕ} (h : digit? b = some value) : value < 16 := by
  unfold digit? at h
  split_ifs at h
  all_goals
    cases h
    omega

def isDigit (b : Octet) : Bool := (digit? b).isSome

def value (digits : List Octet) : ℕ :=
  digits.foldl (fun acc b => 16 * acc + (digit? b).getD 0) 0

/-- A way to write numbers. -/
structure IsNumeral (numeral : ℕ → List Octet) : Prop where
  ne_nil : ∀ n, numeral n ≠ []
  digits : ∀ n, ∀ b ∈ numeral n, isDigit b
  value : ∀ n, value (numeral n) = n

theorem value_map {f : ℕ → Octet} {ds : List ℕ} (h : ∀ d ∈ ds, digit? (f d) = some d) :
    value (ds.map f) = ds.foldl (fun acc d => 16 * acc + d) 0 := by
  unfold value
  rw [List.foldl_map]
  apply List.foldl_ext
  intro acc d hd
  rw [h d hd]
  rfl

theorem value_concat (digits : List Octet) (b : Octet) :
    value (digits ++ [b]) = 16 * value digits + (digit? b).getD 0 := by
  unfold value
  rw [List.foldl_append]
  rfl

theorem foldl_digits (n : ℕ) :
    (Nat.digits 16 n).reverse.foldl (fun acc d => 16 * acc + d) 0 = n := by
  have hcomm : (fun x y : ℕ => 16 * y + x) = fun x y => (x : ℕ) + 16 * y := by
    funext x y
    exact Nat.add_comm _ _
  have hfoldr := Nat.ofDigits_eq_foldr 16 (Nat.digits 16 n)
  simp only [Nat.cast_id] at hfoldr
  rw [List.foldl_reverse, hcomm, ← hfoldr, Nat.ofDigits_digits]

end Hexadecimal
