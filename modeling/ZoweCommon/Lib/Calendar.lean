import Mathlib.Algebra.BigOperators.Group.List.Basic
import Mathlib.Data.List.GetD
import Mathlib.Order.Monotone.Basic
import Mathlib.Tactic.Ring

/-! The proleptic Gregorian calendar: the days from the first of January of the year zero on. -/
namespace Calendar

def IsLeap (year : ℕ) : Prop := year % 4 = 0 ∧ (year % 100 ≠ 0 ∨ year % 400 = 0)

instance : DecidablePred IsLeap := fun year => by
  unfold IsLeap
  infer_instance

def yearLength (year : ℕ) : ℕ := if IsLeap year then 366 else 365

def monthLengths (year : ℕ) : List ℕ :=
  [31, if IsLeap year then 29 else 28, 31, 30, 31, 30, 31, 31, 30, 31, 30, 31]

def monthLength (year month : ℕ) : ℕ := (monthLengths year).getD (month - 1) 0

/-- A day that the calendar has. -/
@[ext] structure Date where
  year : ℕ
  month : ℕ
  day : ℕ
  month_pos : 1 ≤ month
  month_le : month ≤ 12
  day_pos : 1 ≤ day
  day_le : day ≤ monthLength year month
  deriving DecidableEq

def daysBeforeYear (year : ℕ) : ℕ :=
  365 * year + (year + 3) / 4 - (year + 99) / 100 + (year + 399) / 400

def daysBeforeMonth (year month : ℕ) : ℕ := ((monthLengths year).take (month - 1)).sum

def Date.dayOfYear (d : Date) : ℕ := daysBeforeMonth d.year d.month + (d.day - 1)

def Date.number (d : Date) : ℕ := daysBeforeYear d.year + d.dayOfYear

/-! Places in a row of lengths -/

/-- The piece that a place lies in. -/
def pieceOf : List ℕ → ℕ → ℕ
  | [], _ => 0
  | l :: lengths, k => if k < l then 0 else pieceOf lengths (k - l) + 1

theorem pieceOf_spec {lengths : List ℕ} {k : ℕ} (h : k < lengths.sum) :
    pieceOf lengths k < lengths.length ∧ (lengths.take (pieceOf lengths k)).sum ≤ k ∧
      k < (lengths.take (pieceOf lengths k)).sum + lengths.getD (pieceOf lengths k) 0 := by
  induction lengths generalizing k with
  | nil => exact absurd h (Nat.not_lt_zero _)
  | cons l lengths ih =>
    rw [List.sum_cons] at h
    unfold pieceOf
    split_ifs with hk
    · simpa using hk
    · obtain ⟨hlength, hle, hlt⟩ := ih (k := k - l) (by omega)
      rw [List.take_succ_cons, List.sum_cons, List.getD_cons_succ, List.length_cons]
      omega

theorem sum_take_add_getD_le (lengths : List ℕ) {i j : ℕ} (h : i < j) :
    (lengths.take i).sum + lengths.getD i 0 ≤ (lengths.take j).sum := by
  induction lengths generalizing i j with
  | nil => simp
  | cons l lengths ih =>
    cases j with
    | zero => omega
    | succ j =>
      rw [List.take_succ_cons, List.sum_cons]
      cases i with
      | zero => simp
      | succ i =>
        have hle := ih (i := i) (j := j) (by omega)
        rw [List.take_succ_cons, List.sum_cons, List.getD_cons_succ]
        omega

theorem sum_take_le (lengths : List ℕ) (i : ℕ) : (lengths.take i).sum ≤ lengths.sum := by
  have hle := sum_take_add_getD_le lengths (i := i) (j := max (i + 1) lengths.length) (by omega)
  rw [List.take_of_length_le (le_max_right _ _)] at hle
  omega

theorem pieceOf_eq {lengths : List ℕ} {i k : ℕ} (hlo : (lengths.take i).sum ≤ k)
    (hhi : k < (lengths.take i).sum + lengths.getD i 0) : pieceOf lengths k = i := by
  have hsum : k < lengths.sum := by
    have hpiece := sum_take_add_getD_le lengths (Nat.lt_add_one i)
    have htake := sum_take_le lengths (i + 1)
    omega
  obtain ⟨-, hlo', hhi'⟩ := pieceOf_spec hsum
  rcases lt_trichotomy (pieceOf lengths k) i with hlt | heq | hgt
  · have hle := sum_take_add_getD_le lengths hlt
    omega
  · exact heq
  · have hle := sum_take_add_getD_le lengths hgt
    omega

/-! Years -/

def divides (d year : ℕ) : ℕ := if year % d = 0 then 1 else 0

theorem div_succ (year d : ℕ) (hd : 0 < d) :
    (year + 1 + (d - 1)) / d = (year + (d - 1)) / d + divides d year := by
  have hsum : year + (d - 1) + 1 = year + d := by omega
  rw [show year + 1 + (d - 1) = year + (d - 1) + 1 by omega, Nat.succ_div, hsum]
  simp only [Nat.dvd_iff_mod_eq_zero, Nat.add_mod_right, divides]

theorem yearLength_eq (year : ℕ) :
    yearLength year + divides 100 year = 365 + divides 4 year + divides 400 year := by
  unfold yearLength IsLeap divides
  by_cases hmod4 : year % 4 = 0
  · by_cases hmod100 : year % 100 = 0
    · by_cases hmod400 : year % 400 = 0 <;> simp [hmod4, hmod100, hmod400]
    · have hmod400 : year % 400 ≠ 0 := by omega
      simp [hmod4, hmod100, hmod400]
  · have hmod100 : year % 100 ≠ 0 := by omega
    have hmod400 : year % 400 ≠ 0 := by omega
    simp [hmod4, hmod100, hmod400]

theorem daysBeforeYear_succ (year : ℕ) :
    daysBeforeYear (year + 1) = daysBeforeYear year + yearLength year := by
  have h4 : (year + 1 + 3) / 4 = (year + 3) / 4 + divides 4 year := div_succ year 4 (by omega)
  have h100 : (year + 1 + 99) / 100 = (year + 99) / 100 + divides 100 year :=
    div_succ year 100 (by omega)
  have h400 : (year + 1 + 399) / 400 = (year + 399) / 400 + divides 400 year :=
    div_succ year 400 (by omega)
  have hlength := yearLength_eq year
  have hle : (year + 99) / 100 ≤ 365 * year := by omega
  have hone : divides 100 year ≤ 1 := by
    unfold divides
    split_ifs <;> omega
  unfold daysBeforeYear
  rw [h4, h100, h400]
  omega

theorem daysBeforeYear_strictMono : StrictMono daysBeforeYear := by
  apply strictMono_nat_of_lt_succ
  intro year
  rw [daysBeforeYear_succ]
  unfold yearLength
  split_ifs <;> omega

def yearOf (number : ℕ) : ℕ :=
  let year := 400 * number / 146097
  if daysBeforeYear (year + 1) ≤ number then year + 1
  else if daysBeforeYear year ≤ number then year
  else year - 1

theorem yearOf_spec (number : ℕ) : daysBeforeYear (yearOf number) ≤ number ∧
    number < daysBeforeYear (yearOf number + 1) := by
  unfold yearOf
  dsimp only
  have hlo : 146097 * (400 * number / 146097) ≤ 400 * number := Nat.mul_div_le _ _
  have hhi : 400 * number < 146097 * (400 * number / 146097 + 1) := Nat.lt_mul_div_succ _ (by omega)
  generalize 400 * number / 146097 = year at hlo hhi
  split_ifs with hnext hthis
  · refine ⟨hnext, ?_⟩
    unfold daysBeforeYear
    omega
  · exact ⟨hthis, Nat.lt_of_not_le hnext⟩
  · cases year with
    | zero => exact absurd (Nat.zero_le _) hthis
    | succ year =>
      refine ⟨?_, Nat.lt_of_not_le hthis⟩
      unfold daysBeforeYear
      rw [Nat.add_sub_cancel]
      omega

/-! Days -/

theorem sum_monthLengths (year : ℕ) : (monthLengths year).sum = yearLength year := by
  unfold monthLengths yearLength
  split_ifs <;> rfl

theorem monthLength_le (year month : ℕ) : monthLength year month ≤ 31 := by
  unfold monthLength
  by_cases h : month - 1 < (monthLengths year).length
  · have hall : ∀ l ∈ monthLengths year, l ≤ 31 := by
      unfold monthLengths
      split_ifs <;> decide
    rw [List.getD_eq_getElem _ _ h]
    exact hall _ (List.getElem_mem h)
  · rw [List.getD_eq_default _ _ (Nat.le_of_not_lt h)]
    omega

theorem Date.day_le_thirtyone (d : Date) : d.day ≤ 31 :=
  d.day_le.trans (monthLength_le _ _)

theorem Date.dayOfYear_lt (d : Date) : d.dayOfYear < yearLength d.year := by
  have hle := sum_take_add_getD_le (monthLengths d.year) (i := d.month - 1) (j := 12)
    (by have := d.month_le; omega)
  have hsum := sum_take_le (monthLengths d.year) 12
  have hpos := d.day_pos
  have hday := d.day_le
  rw [sum_monthLengths] at hsum
  unfold Date.dayOfYear daysBeforeMonth
  unfold monthLength at hday
  omega

theorem pieceOf_dayOfYear (d : Date) :
    pieceOf (monthLengths d.year) d.dayOfYear = d.month - 1 := by
  have hpos := d.day_pos
  have hday := d.day_le
  apply pieceOf_eq
  · exact Nat.le_add_right _ _
  · unfold Date.dayOfYear daysBeforeMonth
    unfold monthLength at hday
    omega

theorem yearLength_sub_one_iff (d : Date) :
    d.dayOfYear + 1 = yearLength d.year ↔ d.month = 12 ∧ d.day = 31 := by
  have hsum := sum_monthLengths d.year
  have hpos := d.day_pos
  have hday := d.day_le
  have hlast : ((monthLengths d.year).take 11).sum + 31 = yearLength d.year := by
    rw [← hsum]
    unfold monthLengths
    simp only [List.take_succ_cons, List.take_zero, List.sum_cons, List.sum_nil]
    ring
  constructor
  · intro h
    have hmonth : d.month - 1 = 11 := by
      rw [← pieceOf_dayOfYear]
      apply pieceOf_eq
      · omega
      · have hgetD : (monthLengths d.year).getD 11 0 = 31 := rfl
        omega
    have hyear := h
    unfold Date.dayOfYear daysBeforeMonth at hyear
    rw [hmonth] at hyear
    have := d.month_pos
    omega
  · rintro ⟨hmonth, hthirtyfirst⟩
    unfold Date.dayOfYear daysBeforeMonth
    rw [hmonth, hthirtyfirst]
    omega

def Date.ofNumber (number : ℕ) : Date :=
  let year := yearOf number
  let k := number - daysBeforeYear year
  let i := pieceOf (monthLengths year) k
  have hi : i < 12 ∧ ((monthLengths year).take i).sum ≤ k ∧
      k < ((monthLengths year).take i).sum + (monthLengths year).getD i 0 := by
    obtain ⟨hlo, hhi⟩ := yearOf_spec number
    rw [daysBeforeYear_succ] at hhi
    have hk : number - daysBeforeYear (yearOf number) < yearLength (yearOf number) := by omega
    rw [← sum_monthLengths] at hk
    exact pieceOf_spec hk
  { year := year
    month := i + 1
    day := k - ((monthLengths year).take i).sum + 1
    month_pos := by omega
    month_le := by omega
    day_pos := by omega
    day_le := by
      unfold monthLength
      rw [Nat.add_sub_cancel]
      omega }

theorem Date.number_ofNumber (number : ℕ) : (Date.ofNumber number).number = number := by
  obtain ⟨hlo, hhi⟩ := yearOf_spec number
  rw [daysBeforeYear_succ] at hhi
  obtain ⟨-, hle, -⟩ := @pieceOf_spec (monthLengths (yearOf number))
    (number - daysBeforeYear (yearOf number)) (by rw [sum_monthLengths]; omega)
  unfold Date.ofNumber Date.number Date.dayOfYear daysBeforeMonth
  dsimp only
  rw [Nat.add_sub_cancel, Nat.add_sub_cancel]
  omega

theorem Date.ofNumber_injective : Function.Injective Date.ofNumber := by
  intro m n h
  rw [← Date.number_ofNumber m, h, Date.number_ofNumber]

/-- The first day of the Unix epoch. -/
def Date.epoch : Date := ⟨1970, 1, 1, by decide, by decide, by decide, by decide⟩

end Calendar
