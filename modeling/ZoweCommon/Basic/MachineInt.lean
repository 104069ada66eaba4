import Mathlib.Data.Int.Notation

/-! Numbers of 32 bits with a sign, which wrap around. -/
namespace ZoweCommon

def IsInt32 (n : ℤ) : Prop := -2147483648 ≤ n ∧ n < 2147483648

instance (n : ℤ) : Decidable (IsInt32 n) :=
  inferInstanceAs (Decidable (-2147483648 ≤ n ∧ n < 2147483648))

/-- What an `int` keeps of a number. -/
def toInt32 (n : ℤ) : ℤ := n.bmod 4294967296

theorem isInt32_toInt32 (n : ℤ) : IsInt32 (toInt32 n) := by
  unfold IsInt32 toInt32
  rw [Int.bmod_def]
  split <;> omega

theorem toInt32_of_isInt32 {n : ℤ} (h : IsInt32 n) : toInt32 n = n := by
  unfold IsInt32 at h
  unfold toInt32
  rw [Int.bmod_def]
  split <;> omega

/-- One turn too far. -/
theorem toInt32_of_overflow {n : ℤ} (h : 2147483648 ≤ n) (h' : n < 6442450944) :
    toInt32 n = n - 4294967296 := by
  unfold toInt32
  rw [Int.bmod_def]
  split <;> omega

end ZoweCommon
