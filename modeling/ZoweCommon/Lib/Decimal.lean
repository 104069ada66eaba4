import Mathlib.Data.Nat.Digits.Lemmas

/-! Decimal numerals, most significant digit first. -/
namespace Decimal

/-- The numeral of a number, with no leading zeros. -/
def digits (n : ℕ) : List ℕ := if n = 0 then [0] else (Nat.digits 10 n).reverse

/-- The number a numeral stands for, read from left to right. -/
def value (ds : List ℕ) : ℕ := ds.foldl (fun acc d => 10 * acc + d) 0

theorem value_digits (n : ℕ) : value (digits n) = n := by
  unfold value digits
  by_cases h : n = 0
  · rw [if_pos h, h]
    rfl
  · have hcomm : (fun x y : ℕ => 10 * y + x) = fun x y => (x : ℕ) + 10 * y := by
      funext x y
      exact Nat.add_comm _ _
    have hfoldr := Nat.ofDigits_eq_foldr 10 (Nat.digits 10 n)
    simp only [Nat.cast_id] at hfoldr
    rw [if_neg h, List.foldl_reverse, hcomm, ← hfoldr, Nat.ofDigits_digits]

theorem digits_lt {n d : ℕ} (h : d ∈ digits n) : d < 10 := by
  unfold digits at h
  by_cases hn : n = 0
  · rw [if_pos hn] at h
    rw [List.mem_singleton.mp h]
    omega
  · rw [if_neg hn, List.mem_reverse] at h
    exact Nat.digits_lt_base (by omega) h

theorem digits_ne_nil (n : ℕ) : digits n ≠ [] := by
  unfold digits
  by_cases h : n = 0
  · simp [h]
  · rw [if_neg h, ne_eq, List.reverse_eq_nil_iff, Nat.digits_eq_nil_iff_eq_zero]
    exact h

theorem length_digits_le {n k : ℕ} (hk : 0 < k) (h : n < 10 ^ k) : (digits n).length ≤ k := by
  unfold digits
  by_cases hn : n = 0
  · rw [if_pos hn, List.length_singleton]
    omega
  · rw [if_neg hn, List.length_reverse, Nat.digits_length_le_iff (by omega)]
    exact h

/-- Reading a numeral never passes the number it stands for. -/
theorem value_append (ds es : List ℕ) : value (ds ++ es) = value ds * 10 ^ es.length + value es := by
  have hfold : ∀ (es : List ℕ) (acc : ℕ),
      es.foldl (fun acc d => 10 * acc + d) acc = acc * 10 ^ es.length + value es := by
    intro es
    induction es with
    | nil => intro acc; simp [value]
    | cons e es ih =>
      intro acc
      have hvalue : value (e :: es) = e * 10 ^ es.length + value es := by
        unfold value
        rw [List.foldl_cons, ih, Nat.mul_zero, Nat.zero_add]
        rfl
      rw [List.foldl_cons, ih, hvalue, List.length_cons]
      ring
  unfold value
  rw [List.foldl_append, hfold]
  rfl

/-- Digits that are left out change every number but zero. -/
theorem value_take_eq_iff {ds : List ℕ} {k : ℕ} :
    value (ds.take k) = value ds ↔ ds.length ≤ k ∨ value ds = 0 := by
  have hsplit := value_append (ds.take k) (ds.drop k)
  rw [List.take_append_drop, List.length_drop] at hsplit
  constructor
  · intro heq
    by_contra hnot
    have hlong : k < ds.length := by omega
    have hpow : 10 ^ 1 ≤ 10 ^ (ds.length - k) := Nat.pow_le_pow_right (by omega) (by omega)
    have hten : value ds * 10 ≤ value ds * 10 ^ (ds.length - k) := Nat.mul_le_mul_left _ hpow
    rw [heq] at hsplit
    omega
  · rintro (hle | hzero)
    · rw [List.take_of_length_le hle]
    · have hle : value (ds.take k) ≤ value (ds.take k) * 10 ^ (ds.length - k) :=
        Nat.le_mul_of_pos_right _ (by positivity)
      omega

theorem value_take_le (ds : List ℕ) (k : ℕ) : value (ds.take k) ≤ value ds := by
  have hsplit := value_append (ds.take k) (ds.drop k)
  rw [List.take_append_drop] at hsplit
  rw [hsplit]
  exact (Nat.le_mul_of_pos_right _ (by positivity)).trans (Nat.le_add_right _ _)

def lastDigits : ℕ → ℕ → List ℕ
  | 0, _ => []
  | width + 1, n => lastDigits width (n / 10) ++ [n % 10]

@[simp] theorem length_lastDigits (width n : ℕ) : (lastDigits width n).length = width := by
  induction width generalizing n with
  | zero => rfl
  | succ width ih => rw [lastDigits, List.length_append, ih, List.length_singleton]

theorem lastDigits_lt {width n d : ℕ} (h : d ∈ lastDigits width n) : d < 10 := by
  induction width generalizing n with
  | zero => exact absurd h List.not_mem_nil
  | succ width ih =>
    rw [lastDigits, List.mem_append, List.mem_singleton] at h
    rcases h with h | h
    · exact ih h
    · omega

theorem value_lastDigits (width n : ℕ) : value (lastDigits width n) = n % 10 ^ width := by
  induction width generalizing n with
  | zero => rw [pow_zero, Nat.mod_one, lastDigits, value, List.foldl_nil]
  | succ width ih =>
    have hdigit : value [n % 10] = n % 10 := by simp [value]
    rw [lastDigits, value_append, ih, hdigit, List.length_singleton, pow_one, pow_succ',
      Nat.mod_mul]
    ring

theorem lastDigits_injective {width m n : ℕ} (hm : m < 10 ^ width) (hn : n < 10 ^ width)
    (h : lastDigits width m = lastDigits width n) : m = n := by
  have hvalue : m % 10 ^ width = n % 10 ^ width := by
    rw [← value_lastDigits, h, value_lastDigits]
  rwa [Nat.mod_eq_of_lt hm, Nat.mod_eq_of_lt hn] at hvalue

theorem value_lt {ds : List ℕ} (h : ∀ d ∈ ds, d < 10) : value ds < 10 ^ ds.length := by
  induction ds with
  | nil => exact Nat.one_pos
  | cons d ds ih =>
    rw [List.forall_mem_cons] at h
    have hrest := ih h.2
    have hhead : value [d] = d := by
      unfold value
      rw [List.foldl_cons, List.foldl_nil, Nat.mul_zero, Nat.zero_add]
    rw [← List.singleton_append, value_append, hhead, List.length_append, List.length_singleton,
      Nat.pow_add, Nat.pow_one]
    nlinarith [h.1]

/-- The digits that a long numeral begins with make a large number. -/
theorem le_value_take {n k : ℕ} (hk : 0 < k) (h : k < (digits n).length) :
    10 ^ (k - 1) ≤ value ((digits n).take k) ∧ value ((digits n).take k) ≤ n := by
  have hsplit := value_append ((digits n).take k) ((digits n).drop k)
  rw [List.take_append_drop, value_digits, List.length_drop] at hsplit
  have hdrop : value ((digits n).drop k) < 10 ^ ((digits n).length - k) := by
    rw [← List.length_drop]
    exact value_lt fun d hd => digits_lt (List.mem_of_mem_drop hd)
  have hpow : 1 ≤ 10 ^ ((digits n).length - k) := Nat.one_le_pow _ _ (by omega)
  constructor
  · by_contra hlt
    have hsmall : n < 10 ^ ((digits n).length - 1) := by
      have hexp : (digits n).length - 1 = (k - 1) + ((digits n).length - k) := by omega
      rw [hexp, Nat.pow_add]
      nlinarith
    have hlength := length_digits_le (by omega) hsmall
    omega
  · nlinarith

end Decimal
