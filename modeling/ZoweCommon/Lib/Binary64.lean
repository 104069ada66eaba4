import Mathlib.Algebra.Order.Field.Rat
import Mathlib.Algebra.Ring.Int.Defs
import Mathlib.Algebra.Ring.Nat
import Mathlib.Data.Int.Order.Basic
import Mathlib.Data.Rat.Cast.Order
import Mathlib.Tactic.Linarith

/-! Comparisons of double-precision numbers, their values, and their truncation to integers, from
the bits. -/
namespace Binary64

def exponent (bits : BitVec 64) : ℕ := bits.toNat / 2 ^ 52 % 2 ^ 11

def fraction (bits : BitVec 64) : ℕ := bits.toNat % 2 ^ 52

def isNaN (bits : BitVec 64) : Bool := exponent bits = 2 ^ 11 - 1 && fraction bits ≠ 0

def isFinite (bits : BitVec 64) : Bool := exponent bits ≠ 2 ^ 11 - 1

/-- How many times the smallest positive number. Infinity counts as the number after the last. -/
def units (bits : BitVec 64) : ℤ :=
  let significand := if exponent bits = 0 then fraction bits else 2 ^ 52 + fraction bits
  let magnitude : ℤ := (significand * 2 ^ (max (exponent bits) 1 - 1) : ℕ)
  if bits.msb then -magnitude else magnitude

/-- The smallest positive number is one over this. -/
def one : ℕ := 2 ^ 1074

def lt (a b : BitVec 64) : Bool := !isNaN a && !isNaN b && decide (units a < units b)

def le (a b : BitVec 64) : Bool := !isNaN a && !isNaN b && decide (units a ≤ units b)

def eq (a b : BitVec 64) : Bool := !isNaN a && !isNaN b && decide (units a = units b)

/-- The integer part, if there is one. -/
def truncate (bits : BitVec 64) : Option ℤ :=
  if isFinite bits then some ((units bits).tdiv one) else none

/-- The exact value of a finite number. -/
def value (bits : BitVec 64) : ℚ := units bits / one

theorem one_pos : 0 < one := by
  unfold one
  positivity

/-- Truncation moves a number by less than one. -/
theorem truncate_near {bits : BitVec 64} {z : ℤ} (h : truncate bits = some z) :
    (z : ℚ) - 1 < value bits ∧ value bits < z + 1 := by
  unfold truncate at h
  split at h
  · cases h
    have hpos : (0 : ℤ) < one := Int.natCast_pos.mpr one_pos
    have hdiv : (units bits : ℚ) = one * (units bits).tdiv one + (units bits).tmod one := by
      exact_mod_cast (Int.mul_tdiv_add_tmod (units bits) one).symm
    have hlt : ((units bits).tmod one : ℚ) < one := by
      exact_mod_cast Int.tmod_lt_of_pos (units bits) hpos
    have hgt : -(one : ℚ) < (units bits).tmod one := by
      exact_mod_cast Int.lt_tmod_of_pos (units bits) hpos
    have hposq : (0 : ℚ) < one := Nat.cast_pos.mpr one_pos
    unfold value
    rw [lt_div_iff₀ hposq, div_lt_iff₀ hposq]
    constructor
    · linarith
    · linarith
  · cases h

end Binary64
