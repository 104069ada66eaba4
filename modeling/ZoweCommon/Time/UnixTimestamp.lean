import ZoweCommon.Basic.CString
import ZoweCommon.Basic.Exec
import ZoweCommon.Lib.Calendar
import ZoweCommon.Lib.Decimal
import Mathlib.Algebra.Ring.Int.Defs
import Mathlib.Algebra.Ring.Nat
import Mathlib.Tactic.IntervalCases

/-! The text of a Unix time, as z/OS computes it. -/
namespace ZoweCommon
namespace TimeUtils

def SECS_IN_A_DAY : ℤ := 86400
def DAYS_IN_YEAR : ℤ := 365
def SECS_IN_HOUR : ℤ := 3600
def SECS_IN_MIN : ℤ := 60
def DAYS_IN_COMMON : ℤ := 365
def DAYS_IN_LEAP : ℤ := 366

/-- The months of a common year and of a leap year. -/
def daysInAMonth (is_leap : Bool) : List ℤ :=
  if is_leap then [31, 29, 31, 30, 31, 30, 31, 31, 30, 31, 30, 31]
  else [31, 28, 31, 30, 31, 30, 31, 31, 30, 31, 30, 31]

structure DayStamp where
  day : Byte
  month : Byte
  deriving DecidableEq

/-- The loop over the months that are left. -/
def getDayAndMonthFrom (stamp : DayStamp) : List ℤ → ℤ → ℤ → ℤ × DayStamp
  | [], _, _ => (-1, stamp)
  | currentNumber :: months, i, tmp_acc =>
    if tmp_acc > currentNumber then
      getDayAndMonthFrom stamp months (i + 1) (tmp_acc - currentNumber)
    else (0, { day := BitVec.ofInt 8 tmp_acc, month := BitVec.ofInt 8 (i + 1) })

def getDayAndMonth (stamp : DayStamp) (dayInAYear year : BitVec 32) : ℤ × DayStamp :=
  let tmp_acc : ℤ := (dayInAYear.setWidth 16).toInt
  let is_leap : Bool := year % 4 = 0
  if (!is_leap ∧ tmp_acc ≥ DAYS_IN_COMMON) ∨ (is_leap ∧ tmp_acc ≥ DAYS_IN_LEAP) then
    (-1, { day := 0, month := 0 })
  else getDayAndMonthFrom stamp (daysInAMonth is_leap) 0 tmp_acc

/-- The digits are stored from the last one on. -/
def convertIntToStringFrom : ℕ → ℕ → List Byte → List Byte
  | 0, _, string => string
  | ptrSize + 1, rem, string =>
    convertIntToStringFrom ptrSize (rem / 10) (BitVec.ofNat 8 (rem % 10 + 0xF0) :: string)

/-- What is stored from `string` on. -/
def convertIntToString (ptrSize : ℕ) (input : ℤ) : List Byte :=
  convertIntToStringFrom ptrSize (BitVec.ofInt 32 input).toNat []

def overwrite (output : List Byte) (offset : ℕ) (text : List Byte) : List Byte :=
  output.take offset ++ text ++ output.drop (offset + text.length)

def splitFourYears (currentYear dayOfThisYear : ℤ) : ℤ × ℤ :=
  if dayOfThisYear < DAYS_IN_YEAR then (currentYear, dayOfThisYear + 1)
  else if dayOfThisYear < DAYS_IN_YEAR * 2 then
    (currentYear + 1, dayOfThisYear - (DAYS_IN_YEAR - 1))
  else if dayOfThisYear < DAYS_IN_YEAR * 2 + DAYS_IN_LEAP then
    (currentYear + 2, dayOfThisYear - (DAYS_IN_YEAR * 2 - 1))
  else (currentYear + 3, dayOfThisYear - (DAYS_IN_YEAR * 2 + DAYS_IN_LEAP - 1))

/-- A product of two `int`. -/
def mulInt (a b : ℤ) : Exec ℤ :=
  if -2 ^ 31 ≤ a * b ∧ a * b < 2 ^ 31 then return a * b else throw .undefinedBehaviour

/-- `stamp` is not initialised before `getDayAndMonth`. -/
def unixToTimestamp (stamp : DayStamp) (unixTime : BitVec 64) : Exec (List Byte) := do
  let dayOfThisYear := ((unixTime / BitVec.ofInt 64 SECS_IN_A_DAY).setWidth 32).toInt
  let seconds ← mulInt dayOfThisYear SECS_IN_A_DAY
  let currentSeconds := ((unixTime - BitVec.ofInt 64 seconds).setWidth 32).toInt
  let currentYear := dayOfThisYear.tdiv (DAYS_IN_LEAP + DAYS_IN_YEAR * 3)
  let dayOfThisYear := dayOfThisYear - currentYear * (DAYS_IN_LEAP + DAYS_IN_YEAR * 3)
  let (currentYear, dayOfThisYear) := splitFourYears (currentYear * 4) dayOfThisYear
  let currentYear := currentYear + 1970
  let (_, stamp) :=
    getDayAndMonth stamp (BitVec.ofInt 32 dayOfThisYear) (BitVec.ofInt 32 currentYear)
  let hours := currentSeconds.tdiv SECS_IN_HOUR
  let minutes := (currentSeconds - hours * SECS_IN_HOUR).tdiv 60
  let seconds := currentSeconds - hours * SECS_IN_HOUR - SECS_IN_MIN * minutes
  let output := List.replicate 16 0x00
  let output := overwrite output 0 (convertIntToString 4 currentYear)
  let output := overwrite output 4 (convertIntToString 2 stamp.month.toNat)
  let output := overwrite output 6 (convertIntToString 2 stamp.day.toNat)
  let output := overwrite output 8 (convertIntToString 2 hours)
  let output := overwrite output 10 (convertIntToString 2 minutes)
  return overwrite output 12 (convertIntToString 2 seconds)

open Calendar (Date IsLeap monthLengths yearLength pieceOf daysBeforeYear)

/-! What the text should be -/

def decimalText (width n : ℕ) : List Byte :=
  (Decimal.lastDigits width n).map fun d => BitVec.ofNat 8 (d + 0xF0)

def timestampText (year month day second : ℕ) : List Byte :=
  decimalText 4 year ++ decimalText 2 month ++ decimalText 2 day ++
    decimalText 2 (second / 3600) ++ decimalText 2 (second / 60 % 60) ++ decimalText 2 (second % 60) ++
    List.replicate 2 0x00

def dateOf (unixTime : ℕ) : Date := Date.ofNumber (Date.epoch.number + unixTime / 86400)

def civilTimestamp (unixTime : ℕ) : List Byte :=
  timestampText (dateOf unixTime).year (dateOf unixTime).month (dateOf unixTime).day
    (unixTime % 86400)

/-! Digits -/

@[simp] theorem length_decimalText (width n : ℕ) : (decimalText width n).length = width := by
  rw [decimalText, List.length_map, Decimal.length_lastDigits]

theorem digits_decimalText (width n : ℕ) :
    ((decimalText width n).map fun c => c.toNat - 0xF0) = Decimal.lastDigits width n := by
  rw [decimalText, List.map_map]
  refine List.map_congr_left ?_ |>.trans (List.map_id _)
  intro d hd
  have hlt := Decimal.lastDigits_lt hd
  rw [Function.comp_apply, BitVec.toNat_ofNat, id]
  omega

theorem decimalText_injective {width m n : ℕ} (hm : m < 10 ^ width) (hn : n < 10 ^ width)
    (h : decimalText width m = decimalText width n) : m = n := by
  apply Decimal.lastDigits_injective hm hn
  rw [← digits_decimalText, h, digits_decimalText]

theorem timestampText_injective {year month day second year' month' day' second' : ℕ}
    (hyear : year < 10000) (hyear' : year' < 10000) (hmonth : month < 100) (hmonth' : month' < 100)
    (hday : day < 100) (hday' : day' < 100) (hsecond : second < 86400) (hsecond' : second' < 86400)
    (h : timestampText year month day second = timestampText year' month' day' second') :
    year = year' ∧ month = month' ∧ day = day' ∧ second = second' := by
  unfold timestampText at h
  simp only [List.append_assoc] at h
  obtain ⟨hy, h⟩ := List.append_inj h (by simp)
  obtain ⟨hm, h⟩ := List.append_inj h (by simp)
  obtain ⟨hd, h⟩ := List.append_inj h (by simp)
  obtain ⟨hh, h⟩ := List.append_inj h (by simp)
  obtain ⟨hmin, h⟩ := List.append_inj h (by simp)
  obtain ⟨hs, -⟩ := List.append_inj h (by simp)
  have hhours := decimalText_injective (by omega) (by omega) hh
  have hminutes := decimalText_injective (by omega) (by omega) hmin
  have hseconds := decimalText_injective (by omega) (by omega) hs
  refine ⟨decimalText_injective hyear hyear' hy, decimalText_injective hmonth hmonth' hm,
    decimalText_injective hday hday' hd, ?_⟩
  omega

theorem convertIntToStringFrom_eq (ptrSize rem : ℕ) (string : List Byte) :
    convertIntToStringFrom ptrSize rem string = decimalText ptrSize rem ++ string := by
  unfold decimalText
  induction ptrSize generalizing rem string with
  | zero => rfl
  | succ ptrSize ih =>
    rw [convertIntToStringFrom, ih, Decimal.lastDigits, List.map_append, List.append_assoc]
    rfl

theorem convertIntToString_eq (ptrSize : ℕ) {n : ℕ} (h : n < 2 ^ 32) :
    convertIntToString ptrSize n = decimalText ptrSize n := by
  rw [convertIntToString, convertIntToStringFrom_eq, List.append_nil, BitVec.ofInt_natCast,
    BitVec.toNat_ofNat, Nat.mod_eq_of_lt h]

theorem overwrite_zeros (done text : List Byte) {offset k n : ℕ} (hoffset : done.length = offset)
    (hn : text.length + k = n) :
    overwrite (done ++ List.replicate n 0x00) offset text =
      done ++ text ++ List.replicate k 0x00 := by
  subst hoffset hn
  unfold overwrite
  rw [List.take_left, List.drop_append, List.drop_replicate, List.drop_of_length_le (by omega),
    List.nil_append]
  congr 2
  omega

theorem overwrite_timestamp (year month day second : ℕ) (hyear : year < 2 ^ 32)
    (hmonth : month < 2 ^ 32) (hday : day < 2 ^ 32) (hsecond : second < 86400) :
    overwrite (overwrite (overwrite (overwrite (overwrite (overwrite (List.replicate 16 0x00)
      0 (convertIntToString 4 year)) 4 (convertIntToString 2 month)) 6 (convertIntToString 2 day))
      8 (convertIntToString 2 (second / 3600 : ℕ))) 10 (convertIntToString 2 (second / 60 % 60 : ℕ)))
      12 (convertIntToString 2 (second % 60 : ℕ)) = timestampText year month day second := by
  have hfirst : overwrite (List.replicate 16 0x00) 0 (decimalText 4 year) =
      decimalText 4 year ++ List.replicate 12 0x00 := by
    rw [← List.nil_append (List.replicate 16 (0x00 : Byte)),
      overwrite_zeros [] (decimalText 4 year) (k := 12) List.length_nil (by simp), List.nil_append]
  rw [convertIntToString_eq 4 hyear, convertIntToString_eq 2 hmonth, convertIntToString_eq 2 hday,
    convertIntToString_eq 2 (by omega : second / 3600 < 2 ^ 32),
    convertIntToString_eq 2 (by omega : second / 60 % 60 < 2 ^ 32),
    convertIntToString_eq 2 (by omega : second % 60 < 2 ^ 32)]
  rw [hfirst, overwrite_zeros _ (decimalText 2 month) (k := 10) (by simp) (by simp),
    overwrite_zeros _ (decimalText 2 day) (k := 8) (by simp) (by simp),
    overwrite_zeros _ (decimalText 2 (second / 3600)) (k := 6) (by simp) (by simp),
    overwrite_zeros _ (decimalText 2 (second / 60 % 60)) (k := 4) (by simp) (by simp),
    overwrite_zeros _ (decimalText 2 (second % 60)) (k := 2) (by simp) (by simp)]
  rfl

/-! The day and the month -/

theorem isLeap_iff {year : ℕ} (hlo : 1901 ≤ year) (hhi : year < 2100) :
    IsLeap year ↔ year % 4 = 0 := by
  unfold IsLeap
  omega

theorem daysInAMonth_eq (year : ℕ) :
    daysInAMonth (IsLeap year) = (monthLengths year).map fun l : ℕ => (l : ℤ) := by
  unfold daysInAMonth monthLengths
  by_cases h : IsLeap year <;> simp [h]

theorem getDayAndMonthFrom_eq (stamp : DayStamp) {lengths : List ℕ} {k : ℕ} (i : ℕ)
    (h : k < lengths.sum) :
    getDayAndMonthFrom stamp (lengths.map fun l : ℕ => (l : ℤ)) i (k + 1) =
      (0, { day := BitVec.ofNat 8 (k - (lengths.take (pieceOf lengths k)).sum + 1)
            month := BitVec.ofNat 8 (i + pieceOf lengths k + 1) }) := by
  induction lengths generalizing i k with
  | nil => exact absurd h (Nat.not_lt_zero _)
  | cons l lengths ih =>
    rw [List.sum_cons] at h
    rw [List.map_cons, getDayAndMonthFrom, pieceOf]
    by_cases hk : k < l
    · rw [if_neg (by omega), if_pos hk, List.take_zero, List.sum_nil, Nat.sub_zero, Nat.add_zero]
      rfl
    · have hacc : (k : ℤ) + 1 - l = (k - l : ℕ) + 1 := by omega
      have hi : (i : ℤ) + 1 = (i + 1 : ℕ) := rfl
      rw [if_pos (by omega), if_neg hk, hacc, hi, ih (i + 1) (by omega), List.take_succ_cons,
        List.sum_cons, Nat.sub_sub]
      congr 3
      omega

/-- The check takes the last day of the year for none. -/
theorem getDayAndMonth_eq (stamp : DayStamp) (d : Date) (hlo : 1970 ≤ d.year) (hhi : d.year < 2100) :
    getDayAndMonth stamp (BitVec.ofNat 32 (d.dayOfYear + 1)) (BitVec.ofNat 32 d.year) =
      if d.month = 12 ∧ d.day = 31 then (-1, { day := 0, month := 0 })
      else (0, { day := BitVec.ofNat 8 d.day, month := BitVec.ofNat 8 d.month }) := by
  have hlt := d.dayOfYear_lt
  have hlength : yearLength d.year ≤ 366 := by
    unfold yearLength
    split_ifs <;> omega
  have hacc : ((BitVec.ofNat 32 (d.dayOfYear + 1)).setWidth 16).toInt = d.dayOfYear + 1 := by
    rw [BitVec.toInt_eq_toNat_cond, BitVec.toNat_setWidth, BitVec.toNat_ofNat]
    omega
  have hleap : decide (BitVec.ofNat 32 d.year % 4 = 0) = decide (IsLeap d.year) := by
    rw [decide_eq_decide, isLeap_iff (by omega) hhi, ← BitVec.toNat_inj, BitVec.toNat_umod,
      BitVec.toNat_ofNat, Nat.mod_eq_of_lt (by omega : d.year < 2 ^ 32)]
    rfl
  have hlast : ((!decide (IsLeap d.year)) = true ∧ (d.dayOfYear : ℤ) + 1 ≥ DAYS_IN_COMMON) ∨
      (decide (IsLeap d.year) = true ∧ (d.dayOfYear : ℤ) + 1 ≥ DAYS_IN_LEAP) ↔
      d.dayOfYear + 1 = yearLength d.year := by
    unfold yearLength at hlt ⊢
    unfold DAYS_IN_COMMON DAYS_IN_LEAP
    split_ifs at hlt ⊢ with h <;> simp only [h, decide_true, decide_false, Bool.not_true, Bool.not_false, true_and, false_and, false_or, or_false, Bool.false_eq_true] <;> omega
  unfold getDayAndMonth
  dsimp only
  rw [hacc, hleap]
  simp only [hlast, Calendar.yearLength_sub_one_iff]
  split_ifs with h
  · rfl
  · have hfrom := @getDayAndMonthFrom_eq stamp (monthLengths d.year) d.dayOfYear 0
      (by rw [Calendar.sum_monthLengths]; exact hlt)
    have hday : d.dayOfYear - ((monthLengths d.year).take (d.month - 1)).sum + 1 = d.day := by
      have hpos := d.day_pos
      unfold Date.dayOfYear Calendar.daysBeforeMonth
      omega
    have hmonth : 0 + (d.month - 1) + 1 = d.month := by
      have hpos := d.month_pos
      omega
    rw [Calendar.pieceOf_dayOfYear, hday, hmonth] at hfrom
    rw [daysInAMonth_eq]
    exact hfrom

/-! The whole timestamp -/

theorem dateOf_number (unixTime : ℕ) :
    daysBeforeYear (dateOf unixTime).year + (dateOf unixTime).dayOfYear =
      719528 + unixTime / 86400 := by
  have hnumber := Date.number_ofNumber (Date.epoch.number + unixTime / 86400)
  exact hnumber

theorem dateOf_year_bounds {unixTime : ℕ} (h : unixTime < 4102444800) :
    1970 ≤ (dateOf unixTime).year ∧ (dateOf unixTime).year < 2100 := by
  have hnumber := dateOf_number unixTime
  have hlt := (dateOf unixTime).dayOfYear_lt
  have hsucc := Calendar.daysBeforeYear_succ (dateOf unixTime).year
  have h1970 : daysBeforeYear 1970 = 719528 := rfl
  have h2100 : daysBeforeYear 2100 = 767010 := rfl
  have hlo := Calendar.daysBeforeYear_strictMono.lt_iff_lt (a := 1970)
    (b := (dateOf unixTime).year + 1)
  have hhi := Calendar.daysBeforeYear_strictMono.lt_iff_lt (a := (dateOf unixTime).year) (b := 2100)
  omega

theorem splitFourYears_eq {unixTime : ℕ} (h : unixTime < 4102444800) :
    splitFourYears ((unixTime / 86400 / 1461 : ℕ) * 4) (unixTime / 86400 % 1461 : ℕ) =
      (((dateOf unixTime).year : ℤ) - 1970, ((dateOf unixTime).dayOfYear : ℤ) + 1) := by
  obtain ⟨hlo, hhi⟩ := dateOf_year_bounds h
  have hnumber := dateOf_number unixTime
  have hlt := (dateOf unixTime).dayOfYear_lt
  have hlength : yearLength (dateOf unixTime).year =
      if (dateOf unixTime).year % 4 = 0 then 366 else 365 := by
    unfold yearLength
    simp only [isLeap_iff (by omega : 1901 ≤ (dateOf unixTime).year) hhi]
  generalize (dateOf unixTime).dayOfYear = dayOfYear at *
  generalize (dateOf unixTime).year = year at *
  generalize unixTime / 86400 = days at *
  have hcentury : (year + 99) / 100 = if year ≤ 2000 then 20 else 21 := by
    split_ifs <;> omega
  have hcycle : (year + 399) / 400 = if year ≤ 2000 then 5 else 6 := by
    split_ifs <;> omega
  have hdays : 365 * year + (year + 3) / 4 + dayOfYear = days + 719543 := by
    unfold daysBeforeYear at hnumber
    split_ifs at hcentury hcycle <;> omega
  -- four years from 1970 on have their leap day in the third of them
  obtain ⟨cycle, offset, hoffset, rfl⟩ : ∃ cycle offset, offset < 4 ∧ year = 1970 + 4 * cycle + offset :=
    ⟨(year - 1970) / 4, (year - 1970) % 4, by omega, by omega⟩
  clear hnumber hcentury hcycle
  rw [hlength] at hlt
  unfold splitFourYears DAYS_IN_YEAR DAYS_IN_LEAP
  interval_cases offset
  all_goals
    have hquotient : days / 1461 = cycle := by
      split_ifs at hlt <;> omega
    rw [hquotient]
    split_ifs at hlt ⊢ <;> rw [Prod.mk.injEq] <;> omega

/-- The product with the seconds of a day is an `int` up to the 19th of January 2038. -/
theorem unixToTimestamp_eq (stamp : DayStamp) {unixTime : BitVec 64}
    (h : unixTime.toNat < 4102444800) :
    unixToTimestamp stamp unixTime =
      if 24856 ≤ unixTime.toNat / 86400 then .error .undefinedBehaviour
      else if (dateOf unixTime.toNat).month = 12 ∧ (dateOf unixTime.toNat).day = 31 then
        .ok (timestampText (dateOf unixTime.toNat).year 0 0 (unixTime.toNat % 86400))
      else .ok (civilTimestamp unixTime.toNat) := by
  have hsplit := splitFourYears_eq h
  obtain ⟨hlo, hhi⟩ := dateOf_year_bounds h
  have hdays : ((unixTime / BitVec.ofInt 64 SECS_IN_A_DAY).setWidth 32).toInt =
      (unixTime.toNat / 86400 : ℕ) := by
    have hquotient : (unixTime / BitVec.ofInt 64 SECS_IN_A_DAY).toNat = unixTime.toNat / 86400 :=
      BitVec.toNat_udiv
    rw [BitVec.toInt_eq_toNat_cond, BitVec.toNat_setWidth, hquotient]
    omega
  unfold unixToTimestamp
  dsimp only
  rw [hdays]
  by_cases hint : 24856 ≤ unixTime.toNat / 86400
  · rw [if_pos hint, mulInt, if_neg (by unfold SECS_IN_A_DAY; omega)]
    rfl
  · have hmul : mulInt (unixTime.toNat / 86400 : ℕ) SECS_IN_A_DAY =
        .ok (unixTime.toNat / 86400 * 86400 : ℕ) := by
      rw [mulInt, if_pos (by unfold SECS_IN_A_DAY; omega)]
      rfl
    have hseconds : ((unixTime - BitVec.ofInt 64 (unixTime.toNat / 86400 * 86400 : ℕ)).setWidth
        32).toInt = (unixTime.toNat % 86400 : ℕ) := by
      rw [BitVec.ofInt_natCast, BitVec.toInt_eq_toNat_cond, BitVec.toNat_setWidth,
        BitVec.toNat_sub, BitVec.toNat_ofNat]
      omega
    have hfour : ((unixTime.toNat / 86400 : ℕ) : ℤ).tdiv (DAYS_IN_LEAP + DAYS_IN_YEAR * 3) =
        (unixTime.toNat / 86400 / 1461 : ℕ) := rfl
    have hrest : ((unixTime.toNat / 86400 : ℕ) : ℤ) - (unixTime.toNat / 86400 / 1461 : ℕ) *
        (DAYS_IN_LEAP + DAYS_IN_YEAR * 3) = (unixTime.toNat / 86400 % 1461 : ℕ) := by
      unfold DAYS_IN_LEAP DAYS_IN_YEAR
      omega
    have hday : ((dateOf unixTime.toNat).dayOfYear : ℤ) + 1 =
        ((dateOf unixTime.toNat).dayOfYear + 1 : ℕ) := rfl
    rw [if_neg hint, hmul, Exec.ok_bind, hseconds, hfour, hrest, hsplit]
    dsimp only
    rw [Int.sub_add_cancel, hday, BitVec.ofInt_natCast, BitVec.ofInt_natCast,
      getDayAndMonth_eq stamp _ hlo hhi]
    have hhours : ((unixTime.toNat % 86400 : ℕ) : ℤ).tdiv SECS_IN_HOUR =
        (unixTime.toNat % 86400 / 3600 : ℕ) := rfl
    have hminutes : (((unixTime.toNat % 86400 : ℕ) : ℤ) -
        (unixTime.toNat % 86400 / 3600 : ℕ) * SECS_IN_HOUR).tdiv 60 =
        (unixTime.toNat % 86400 / 60 % 60 : ℕ) := by
      have hnat : ((unixTime.toNat % 86400 : ℕ) : ℤ) -
          (unixTime.toNat % 86400 / 3600 : ℕ) * SECS_IN_HOUR = (unixTime.toNat % 86400 % 3600 : ℕ) := by
        unfold SECS_IN_HOUR
        omega
      rw [hnat, Int.tdiv_eq_ediv_of_nonneg (Int.natCast_nonneg _)]
      omega
    have hlast : ((unixTime.toNat % 86400 : ℕ) : ℤ) - (unixTime.toNat % 86400 / 3600 : ℕ) *
        SECS_IN_HOUR - SECS_IN_MIN * (unixTime.toNat % 86400 / 60 % 60 : ℕ) =
        (unixTime.toNat % 86400 % 60 : ℕ) := by
      unfold SECS_IN_HOUR SECS_IN_MIN
      omega
    have hmonth := (dateOf unixTime.toNat).month_le
    have hdom := (dateOf unixTime.toNat).day_le_thirtyone
    rw [hhours, hminutes, hlast]
    split_ifs with hdecember
    · have htext := overwrite_timestamp (dateOf unixTime.toNat).year 0 0 (unixTime.toNat % 86400)
        (by omega) (by omega) (by omega) (by omega)
      exact congrArg Except.ok htext
    · have hstored {n : ℕ} (hn : n ≤ 31) : (BitVec.ofNat 8 n).toNat = n := by
        rw [BitVec.toNat_ofNat]
        omega
      have htext := overwrite_timestamp (dateOf unixTime.toNat).year (dateOf unixTime.toNat).month
        (dateOf unixTime.toNat).day (unixTime.toNat % 86400) (by omega) (by omega) (by omega) (by omega)
      dsimp only
      rw [hstored (by omega : (dateOf unixTime.toNat).month ≤ 31), hstored hdom]
      exact congrArg Except.ok htext

/-! The timestamp is the civil date, and no other time has it. -/

def IsCivil (stamp : DayStamp) (unixTime : BitVec 64) : Prop :=
  unixToTimestamp stamp unixTime = .ok (civilTimestamp unixTime.toNat) ∧
    ∀ other : BitVec 64, other.toNat < 4102444800 → other ≠ unixTime →
      unixToTimestamp stamp other ≠ unixToTimestamp stamp unixTime

theorem dateOf_injective {m n : ℕ} (hdate : dateOf m = dateOf n) (hsecond : m % 86400 = n % 86400) :
    m = n := by
  have hnumber := Date.ofNumber_injective hdate
  omega

/-- The exact condition: not the last day of a year, and not after the 19th of January 2038. -/
theorem isCivil_iff (stamp : DayStamp) {unixTime : BitVec 64} (h : unixTime.toNat < 4102444800) :
    IsCivil stamp unixTime ↔
      ¬((dateOf unixTime.toNat).month = 12 ∧ (dateOf unixTime.toNat).day = 31) ∧
        unixTime.toNat / 86400 < 24856 := by
  have hbound {t : ℕ} (ht : t < 4102444800) : (dateOf t).year < 10000 ∧ (dateOf t).month < 100 ∧
      (dateOf t).day < 100 ∧ 0 < (dateOf t).month ∧ t % 86400 < 86400 := by
    have hyear := dateOf_year_bounds ht
    have hmonth := (dateOf t).month_le
    have hpos := (dateOf t).month_pos
    have hday := (dateOf t).day_le_thirtyone
    omega
  obtain ⟨hyear, hmonth, hday, hpos, hsecond⟩ := hbound h
  have heq := unixToTimestamp_eq stamp h
  unfold IsCivil
  constructor
  · intro ⟨hcivil, _⟩
    rw [heq] at hcivil
    split_ifs at hcivil with hint hlast
    · have htext := Except.ok.inj hcivil
      obtain ⟨-, hzero, -, -⟩ := timestampText_injective hyear hyear (by omega) hmonth (by omega) hday
        hsecond hsecond htext
      omega
    · exact ⟨hlast, by omega⟩
  · intro ⟨hlast, hint⟩
    rw [if_neg (by omega), if_neg hlast] at heq
    refine ⟨heq, ?_⟩
    intro other hother hne hsame
    apply hne
    obtain ⟨hyear', hmonth', hday', hpos', hsecond'⟩ := hbound hother
    rw [heq, unixToTimestamp_eq stamp hother] at hsame
    split_ifs at hsame with hint' hlast'
    · have htext := Except.ok.inj hsame
      obtain ⟨-, hzero, -, -⟩ := timestampText_injective hyear' hyear (by omega) hmonth (by omega)
        hday hsecond' hsecond htext
      omega
    · have htext := Except.ok.inj hsame
      obtain ⟨hyears, hmonths, hdays, hseconds⟩ := timestampText_injective hyear' hyear hmonth' hmonth
        hday' hday hsecond' hsecond htext
      apply BitVec.eq_of_toNat_eq
      apply dateOf_injective _ hseconds
      exact Date.ext hyears hmonths hdays

/-- The 18th of June 2012, 08:27:11. -/
theorem isCivil_june : IsCivil ⟨0, 0⟩ 1340008031 :=
  (isCivil_iff ⟨0, 0⟩ (by decide)).mpr (by decide)

/-- The last day of 1970. -/
theorem not_isCivil_december : ¬∀ (stamp : DayStamp) (unixTime : BitVec 64),
    unixTime.toNat < 4102444800 → IsCivil stamp unixTime := by
  intro h
  have hcivil := (h ⟨0, 0⟩ 31449600 (by decide)).1
  exact absurd hcivil (by decide)

end TimeUtils
end ZoweCommon
