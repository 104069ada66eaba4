import ZoweCommon.Basic.CString
import ZoweCommon.Basic.Exec
import ZoweCommon.Lib.Decimal

/-! What the conversions of `printf` write, what `atoi` reads, and the classes of characters. -/
namespace ZoweCommon
namespace CLibrary

def digitChar (d : ℕ) : Byte := BitVec.ofNat 8 (if d < 10 then 0x30 + d else 0x57 + d)

/-- `%d`, and `%ld` and `%lld` for the wider types. -/
def formatD (z : ℤ) : List Byte :=
  if z < 0 then 0x2D :: (Decimal.digits z.natAbs).map digitChar
  else (Decimal.digits z.natAbs).map digitChar

/-- `%x`, with leading zeros up to a width. -/
def formatX (width : ℕ) (n : ℕ) : List Byte :=
  List.leftpad width 0x30 ((if n = 0 then [0] else (Nat.digits 16 n).reverse).map digitChar)

/-- The nearest integer to a quotient, the even one of two. -/
def roundHalfEven (n d : ℕ) : ℕ :=
  let q := n / d
  let r := n % d
  if 2 * r < d then q else if 2 * r = d ∧ q % 2 = 0 then q else q + 1

/-- `%f`: six places after the point. -/
def formatF (bits : BitVec 64) : List Byte :=
  let sign : List Byte := if bits.msb then [0x2D] else []
  let exponent := bits.toNat / 2 ^ 52 % 2 ^ 11
  let fraction := bits.toNat % 2 ^ 52
  if exponent = 2 ^ 11 - 1 then
    sign ++ if fraction = 0 then CString.ascii "inf" else CString.ascii "nan"
  else
    let mantissa := if exponent = 0 then fraction else 2 ^ 52 + fraction
    -- the value is `mantissa * 2 ^ (max exponent 1 - 1075)`
    let millionths := roundHalfEven (mantissa * 10 ^ 6 * 2 ^ max exponent 1) (2 ^ 1075)
    sign ++ (Decimal.digits (millionths / 10 ^ 6)).map digitChar ++
      0x2E :: List.leftpad 6 0x30 ((Decimal.digits (millionths % 10 ^ 6)).map digitChar)

/-- What `snprintf` leaves in a buffer of a size, up to the terminator. -/
def snprintf (size : ℕ) (text : List Byte) : List Byte := text.take (size - 1)

def isdigit (c : ℤ) : Bool := 0x30 ≤ c && c ≤ 0x39

def isalpha (c : ℤ) : Bool := (0x41 ≤ c && c ≤ 0x5A) || (0x61 ≤ c && c ≤ 0x7A)

def isprint (c : ℤ) : Bool := 0x20 ≤ c && c ≤ 0x7E

def isspace (c : ℤ) : Bool := c = 0x20 || (0x09 ≤ c && c ≤ 0x0D)

/-- How far into a text another begins for the first time. -/
def strstr : List Byte → List Byte → Option ℕ
  | [], needle => if needle = [] then some 0 else none
  | c :: text, needle =>
    if needle.isPrefixOf (c :: text) then some 0 else (strstr text needle).map (· + 1)

/-- A leading sign, whether it is a minus, and the text after it. -/
def splitSign (text : List Byte) : Bool × List Byte :=
  if text.head? = some 0x2D then (true, text.tail)
  else if text.head? = some 0x2B then (false, text.tail)
  else (false, text)

/-- The digits after the white space and the sign. A number that is no `int` has no meaning. -/
def atoi (s : CString) : Exec (BitVec 32) :=
  let text := s.bytes.dropWhile fun b => isspace b.toInt
  let (negative, text) := splitSign text
  let n := Decimal.value ((text.takeWhile fun b => isdigit b.toInt).map fun b => b.toNat - 0x30)
  let z : ℤ := if negative then -n else n
  if -2 ^ 31 ≤ z ∧ z < 2 ^ 31 then return BitVec.ofInt 32 z else throw .undefinedBehaviour

/-- The value is clamped to what fits. -/
def strtoll (s : CString) : BitVec 64 :=
  let text := s.bytes.dropWhile fun b => isspace b.toInt
  let (negative, text) := splitSign text
  let n := Decimal.value ((text.takeWhile fun b => isdigit b.toInt).map fun b => b.toNat - 0x30)
  let z : ℤ := if negative then -n else n
  BitVec.ofInt 64 (max (-2 ^ 63) (min z (2 ^ 63 - 1)))

/-- The double nearest to a quotient, the even one of two. -/
def nearestDouble (n d : ℕ) : BitVec 64 :=
  if n = 0 then 0
  else
    -- `n / d` lies between `2 ^ (e + 51)` and `2 ^ (e + 53)`
    let e : ℤ := n.log2 - d.log2 - 52
    let e := if n * 2 ^ (-(e + 52)).toNat < d * 2 ^ (e + 52).toNat then e - 1 else e
    let e := max e (-1074)
    let m := roundHalfEven (n * 2 ^ (-e).toNat) (d * 2 ^ e.toNat)
    let (m, e) := if m = 2 ^ 53 then (2 ^ 52, e + 1) else (m, e)
    if m < 2 ^ 52 then BitVec.ofNat 64 m
    else if 971 < e then 0x7FF0000000000000
    else BitVec.ofNat 64 ((e + 1075).toNat * 2 ^ 52 + (m - 2 ^ 52))

/-- The conversion of an integer to `double`. -/
def intToDouble (z : ℤ) : BitVec 64 :=
  nearestDouble z.natAbs 1 ||| if z < 0 then 0x8000000000000000 else 0

/-- A number without an exponent. -/
def strtod (s : CString) : BitVec 64 :=
  let text := s.bytes.dropWhile fun b => isspace b.toInt
  let (negative, text) := splitSign text
  let whole := text.takeWhile fun b => isdigit b.toInt
  let places := match text.drop whole.length with
    | point :: text => if point = 0x2E then text.takeWhile fun b => isdigit b.toInt else []
    | [] => []
  let n := Decimal.value ((whole ++ places).map fun b => b.toNat - 0x30)
  nearestDouble n (10 ^ places.length) ||| if negative then 0x8000000000000000 else 0

theorem toInt_length {n : ℕ} (h : n < 2 ^ 31) : (BitVec.ofNat 32 n).toInt = n := by
  rw [BitVec.toInt_eq_toNat_cond, BitVec.toNat_ofNat]
  omega

theorem strstr_le {text needle : List Byte} {i : ℕ} (h : strstr text needle = some i) :
    i + needle.length ≤ text.length := by
  induction text generalizing i with
  | nil =>
    rw [strstr] at h
    split_ifs at h with hneedle
    rw [← Option.some_inj.mp h, hneedle]
    simp
  | cons c text ih =>
    rw [strstr] at h
    split_ifs at h with hprefix
    · have hle := (List.isPrefixOf_iff_prefix.mp hprefix).length_le
      rw [← Option.some_inj.mp h]
      omega
    · obtain ⟨j, hj, rfl⟩ := Option.map_eq_some_iff.mp h
      have hle := ih hj
      rw [List.length_cons]
      omega

theorem mem_of_strstr {text needle : List Byte} (h : (strstr text needle).isSome = true) {c : Byte}
    (hc : c ∈ needle) : c ∈ text := by
  induction text with
  | nil =>
    rw [strstr] at h
    split_ifs at h with hneedle
    · rwa [hneedle] at hc
    · exact absurd h Bool.false_ne_true
  | cons d text ih =>
    rw [strstr] at h
    split_ifs at h with hprefix
    · exact (List.isPrefixOf_iff_prefix.mp hprefix).subset hc
    · rw [Option.isSome_map] at h
      exact List.mem_cons_of_mem _ (ih h)

/-! Digits -/

theorem toInt_of_lt {b : Byte} (h : b.toNat < 128) : b.toInt = b.toNat := by
  rw [BitVec.toInt_eq_toNat_cond]
  omega

theorem toNat_digitChar {d : ℕ} (h : d < 10) : (digitChar d).toNat = 0x30 + d := by
  unfold digitChar
  rw [if_pos h, BitVec.toNat_ofNat]
  omega

theorem toInt_digitChar {d : ℕ} (h : d < 10) : (digitChar d).toInt = 0x30 + d := by
  have hnat := toNat_digitChar h
  rw [toInt_of_lt (by omega), hnat]
  omega

theorem isdigit_digitChar {d : ℕ} (h : d < 10) : isdigit (digitChar d).toInt = true := by
  rw [toInt_digitChar h]
  unfold isdigit
  simp only [Bool.and_eq_true, decide_eq_true_eq]
  omega

theorem not_isspace_digitChar {d : ℕ} (h : d < 10) : isspace (digitChar d).toInt = false := by
  rw [toInt_digitChar h]
  unfold isspace
  simp only [Bool.or_eq_false_iff, Bool.and_eq_false_iff, decide_eq_false_iff_not]
  omega

theorem map_digitChars (n : ℕ) :
    (((Decimal.digits n).map digitChar).map fun b => b.toNat - 0x30) = Decimal.digits n := by
  have hid : (Decimal.digits n).map ((fun b : Byte => b.toNat - 0x30) ∘ digitChar) =
      (Decimal.digits n).map id := by
    apply List.map_congr_left
    intro d hd
    have hnat := toNat_digitChar (Decimal.digits_lt hd)
    show (digitChar d).toNat - 0x30 = d
    omega
  rw [List.map_map, hid, List.map_id]

/-- What `atoi` makes of a numeral. -/
theorem value_digitChars (n : ℕ) :
    Decimal.value ((((Decimal.digits n).map digitChar).takeWhile fun b => isdigit b.toInt).map
      fun b => b.toNat - 0x30) = n := by
  have hall : ∀ b ∈ (Decimal.digits n).map digitChar, isdigit b.toInt = true := by
    intro b hb
    obtain ⟨d, hd, rfl⟩ := List.mem_map.mp hb
    exact isdigit_digitChar (Decimal.digits_lt hd)
  rw [List.takeWhile_eq_self_iff.mpr hall, map_digitChars, Decimal.value_digits]

theorem formatD_of_neg {z : ℤ} (h : z < 0) :
    formatD z = 0x2D :: (Decimal.digits z.natAbs).map digitChar := if_pos h

theorem formatD_of_nonneg {z : ℤ} (h : ¬z < 0) :
    formatD z = (Decimal.digits z.natAbs).map digitChar := if_neg h

theorem length_formatD_le {z : ℤ} (h : z.natAbs < 10 ^ 20) : (formatD z).length ≤ 21 := by
  have hdigits := Decimal.length_digits_le (by omega) h
  unfold formatD
  split_ifs
  · rw [List.length_cons, List.length_map]
    omega
  · rw [List.length_map]
    omega

/-- A number fits in a buffer of 64 bytes. -/
theorem snprintf_formatD {z : ℤ} (h : z.natAbs < 10 ^ 20) : snprintf 64 (formatD z) = formatD z := by
  have hlength := length_formatD_le h
  unfold snprintf
  exact List.take_of_length_le (by omega)

/-- A numeral begins with a digit. -/
theorem exists_digitChar_cons (n : ℕ) : ∃ d < 10, ∃ text,
    (Decimal.digits n).map digitChar = digitChar d :: text := by
  obtain ⟨d, ds, hds⟩ := List.exists_cons_of_ne_nil (Decimal.digits_ne_nil n)
  have hd : d ∈ Decimal.digits n := by
    rw [hds]
    exact List.mem_cons_self
  exact ⟨d, Decimal.digits_lt hd, ds.map digitChar, by rw [hds, List.map_cons]⟩

theorem digitChar_ne {d : ℕ} (hd : d < 10) {b : Byte} (hb : b.toNat < 0x30) : digitChar d ≠ b := by
  have hnat := toNat_digitChar hd
  rintro rfl
  omega

theorem dropWhile_isspace_formatD (z : ℤ) :
    ((formatD z).dropWhile fun b => isspace b.toInt) = formatD z := by
  by_cases hneg : z < 0
  · rw [formatD_of_neg hneg]
    rfl
  · obtain ⟨d, hd, text, htext⟩ := exists_digitChar_cons z.natAbs
    rw [formatD_of_nonneg hneg, htext, List.dropWhile_cons_of_neg]
    rw [not_isspace_digitChar hd]
    exact Bool.false_ne_true

theorem splitSign_formatD (z : ℤ) :
    splitSign (formatD z) = (decide (z < 0), (Decimal.digits z.natAbs).map digitChar) := by
  unfold splitSign
  by_cases hneg : z < 0
  · rw [formatD_of_neg hneg, if_pos (by rfl), decide_eq_true hneg]
    rfl
  · obtain ⟨d, hd, text, htext⟩ := exists_digitChar_cons z.natAbs
    have hminus : some (digitChar d) ≠ some 0x2D := by
      rw [ne_eq, Option.some_inj]
      exact digitChar_ne hd (by decide)
    have hplus : some (digitChar d) ≠ some 0x2B := by
      rw [ne_eq, Option.some_inj]
      exact digitChar_ne hd (by decide)
    rw [formatD_of_nonneg hneg, htext, List.head?_cons, if_neg hminus, if_neg hplus,
      decide_eq_false hneg]

/-- Reading a printed number gives it back, if it is an `int`. -/
theorem atoi_formatD {s : CString} {z : ℤ} (h : s.bytes = formatD z) (hlo : -2 ^ 31 ≤ z)
    (hhi : z < 2 ^ 31) : atoi s = .ok (BitVec.ofInt 32 z) := by
  have hz : (if decide (z < 0) = true then -(z.natAbs : ℤ) else z.natAbs) = z := by
    by_cases hneg : z < 0
    · rw [if_pos (decide_eq_true hneg)]
      omega
    · rw [if_neg (by rw [decide_eq_false hneg]; exact Bool.false_ne_true)]
      omega
  unfold atoi
  rw [h, dropWhile_isspace_formatD]
  dsimp only
  rw [splitSign_formatD]
  dsimp only
  rw [value_digitChars, hz, if_pos ⟨hlo, hhi⟩]
  rfl

/-! No null bytes -/

theorem digitChar_ne_zero {d : ℕ} (h : d < 16) : digitChar d ≠ 0 := by
  have hall : ∀ d < 16, digitChar d ≠ 0 := by decide
  exact hall d h

theorem noNul_decimal (n : ℕ) : NoNul ((Decimal.digits n).map digitChar) := by
  intro b hb
  obtain ⟨d, hd, rfl⟩ := List.mem_map.mp hb
  have hlt := Decimal.digits_lt hd
  exact digitChar_ne_zero (by omega)

theorem noNul_formatD (z : ℤ) : NoNul (formatD z) := by
  unfold formatD
  split_ifs
  · exact (noNul_decimal _).cons (by decide)
  · exact noNul_decimal _

theorem noNul_leftpad (width : ℕ) {text : List Byte} (h : NoNul text) :
    NoNul (List.leftpad width 0x30 text) := by
  unfold List.leftpad
  apply NoNul.append ?_ h
  intro b hb
  rw [List.eq_of_mem_replicate hb]
  decide

theorem noNul_formatX (width n : ℕ) : NoNul (formatX width n) := by
  unfold formatX
  apply noNul_leftpad
  intro b hb
  obtain ⟨d, hd, rfl⟩ := List.mem_map.mp hb
  split_ifs at hd
  · rw [List.mem_singleton.mp hd]
    decide
  · exact digitChar_ne_zero (Nat.digits_lt_base (by omega) (List.mem_reverse.mp hd))

/-- A property of the digits, the sign, the point and the words is one of every byte. -/
theorem forall_mem_formatF {P : Byte → Prop} (hdigit : ∀ d < 10, P (digitChar d))
    (hsign : P 0x2D) (hpoint : P 0x2E) (hinf : ∀ b ∈ CString.ascii "inf", P b)
    (hnan : ∀ b ∈ CString.ascii "nan", P b) {bits : BitVec 64} : ∀ b ∈ formatF bits, P b := by
  have hnumeral : ∀ n, ∀ b ∈ (Decimal.digits n).map digitChar, P b := by
    intro n b hb
    obtain ⟨d, hd, rfl⟩ := List.mem_map.mp hb
    exact hdigit d (Decimal.digits_lt hd)
  have hplaces : ∀ n, ∀ b ∈ List.leftpad 6 0x30 ((Decimal.digits n).map digitChar), P b := by
    intro n b hb
    unfold List.leftpad at hb
    rcases List.mem_append.mp hb with hb | hb
    · rw [List.eq_of_mem_replicate hb]
      exact hdigit 0 (by omega)
    · exact hnumeral n b hb
  have hminus : ∀ b ∈ (if bits.msb then [0x2D] else [] : List Byte), P b := by
    intro b hb
    split_ifs at hb
    · rw [List.mem_singleton.mp hb]
      exact hsign
    · exact absurd hb List.not_mem_nil
  unfold formatF
  dsimp only
  by_cases hspecial : bits.toNat / 2 ^ 52 % 2 ^ 11 = 2 ^ 11 - 1
  · rw [if_pos hspecial]
    apply List.forall_mem_append.mpr ⟨hminus, ?_⟩
    by_cases hfraction : bits.toNat % 2 ^ 52 = 0
    · rw [if_pos hfraction]
      exact hinf
    · rw [if_neg hfraction]
      exact hnan
  · rw [if_neg hspecial]
    apply List.forall_mem_append.mpr ⟨List.forall_mem_append.mpr ⟨hminus, hnumeral _⟩, ?_⟩
    exact List.forall_mem_cons.mpr ⟨hpoint, hplaces _⟩

theorem noNul_formatF (bits : BitVec 64) : NoNul (formatF bits) :=
  forall_mem_formatF (fun _ hd => digitChar_ne_zero (by omega)) (by decide) (by decide) (by decide)
    (by decide)

theorem noNul_snprintf (size : ℕ) {text : List Byte} (h : NoNul text) : NoNul (snprintf size text) :=
  h.take (size - 1)

end CLibrary
end ZoweCommon
