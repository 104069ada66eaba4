import Mathlib.Data.Nat.Notation

/-! Octets in groups of five, as eight characters of five bits each, the last group padded. -/
namespace PaddedBase32

abbrev Octet := BitVec 8

abbrev Quintet := BitVec 5

/-! Of the five octets of a group the eight quintets -/

def quintet0 (a : Octet) : Quintet := (a >>> 3).truncate 5

def quintet1 (a b : Octet) : Quintet := (a <<< 2).truncate 5 ||| (b >>> 6).truncate 5

def quintet2 (b : Octet) : Quintet := (b >>> 1).truncate 5

def quintet3 (b c : Octet) : Quintet := (b <<< 4).truncate 5 ||| (c >>> 4).truncate 5

def quintet4 (c d : Octet) : Quintet := (c <<< 1).truncate 5 ||| (d >>> 7).truncate 5

def quintet5 (d : Octet) : Quintet := (d >>> 2).truncate 5

def quintet6 (d e : Octet) : Quintet := (d <<< 3).truncate 5 ||| (e >>> 5).truncate 5

def quintet7 (e : Octet) : Quintet := e.truncate 5

/-! And back -/

def octet0 (q0 q1 : Quintet) : Octet := (q0.zeroExtend 8 <<< 3) ||| (q1.zeroExtend 8 >>> 2)

def octet1 (q1 q2 q3 : Quintet) : Octet :=
  (q1.zeroExtend 8 <<< 6) ||| (q2.zeroExtend 8 <<< 1) ||| (q3.zeroExtend 8 >>> 4)

def octet2 (q3 q4 : Quintet) : Octet := (q3.zeroExtend 8 <<< 4) ||| (q4.zeroExtend 8 >>> 1)

def octet3 (q4 q5 q6 : Quintet) : Octet :=
  (q4.zeroExtend 8 <<< 7) ||| (q5.zeroExtend 8 <<< 2) ||| (q6.zeroExtend 8 >>> 3)

def octet4 (q6 q7 : Quintet) : Octet := (q6.zeroExtend 8 <<< 5) ||| q7.zeroExtend 8

section

variable (a b c d e : Octet)

theorem octet0_quintets : octet0 (quintet0 a) (quintet1 a b) = a := by
  unfold octet0 quintet0 quintet1
  ext i hi
  have hcases : i = 0 ∨ i = 1 ∨ i = 2 ∨ i = 3 ∨ i = 4 ∨ i = 5 ∨ i = 6 ∨ i = 7 := by omega
  rcases hcases with rfl | rfl | rfl | rfl | rfl | rfl | rfl | rfl <;> simp

theorem octet1_quintets : octet1 (quintet1 a b) (quintet2 b) (quintet3 b c) = b := by
  unfold octet1 quintet1 quintet2 quintet3
  ext i hi
  have hcases : i = 0 ∨ i = 1 ∨ i = 2 ∨ i = 3 ∨ i = 4 ∨ i = 5 ∨ i = 6 ∨ i = 7 := by omega
  rcases hcases with rfl | rfl | rfl | rfl | rfl | rfl | rfl | rfl <;> simp

theorem octet2_quintets : octet2 (quintet3 b c) (quintet4 c d) = c := by
  unfold octet2 quintet3 quintet4
  ext i hi
  have hcases : i = 0 ∨ i = 1 ∨ i = 2 ∨ i = 3 ∨ i = 4 ∨ i = 5 ∨ i = 6 ∨ i = 7 := by omega
  rcases hcases with rfl | rfl | rfl | rfl | rfl | rfl | rfl | rfl <;> simp

theorem octet3_quintets : octet3 (quintet4 c d) (quintet5 d) (quintet6 d e) = d := by
  unfold octet3 quintet4 quintet5 quintet6
  ext i hi
  have hcases : i = 0 ∨ i = 1 ∨ i = 2 ∨ i = 3 ∨ i = 4 ∨ i = 5 ∨ i = 6 ∨ i = 7 := by omega
  rcases hcases with rfl | rfl | rfl | rfl | rfl | rfl | rfl | rfl <;> simp

theorem octet4_quintets : octet4 (quintet6 d e) (quintet7 e) = e := by
  unfold octet4 quintet6 quintet7
  ext i hi
  have hcases : i = 0 ∨ i = 1 ∨ i = 2 ∨ i = 3 ∨ i = 4 ∨ i = 5 ∨ i = 6 ∨ i = 7 := by omega
  rcases hcases with rfl | rfl | rfl | rfl | rfl | rfl | rfl | rfl <;> simp

end

section

variable (char : Quintet → Octet) (pad : Octet)

/-- The text of octets. What is missing of the last group counts as zero. -/
def encode : List Octet → List Octet
  | a :: b :: c :: d :: e :: data =>
    char (quintet0 a) :: char (quintet1 a b) :: char (quintet2 b) :: char (quintet3 b c) ::
      char (quintet4 c d) :: char (quintet5 d) :: char (quintet6 d e) :: char (quintet7 e) ::
      encode data
  | [a, b, c, d] =>
    [char (quintet0 a), char (quintet1 a b), char (quintet2 b), char (quintet3 b c),
      char (quintet4 c d), char (quintet5 d), char (quintet6 d 0), pad]
  | [a, b, c] =>
    [char (quintet0 a), char (quintet1 a b), char (quintet2 b), char (quintet3 b c),
      char (quintet4 c 0), pad, pad, pad]
  | [a, b] =>
    [char (quintet0 a), char (quintet1 a b), char (quintet2 b), char (quintet3 b 0), pad, pad,
      pad, pad]
  | [a] => [char (quintet0 a), char (quintet1 a 0), pad, pad, pad, pad, pad, pad]
  | [] => []

theorem length_encode (data : List Octet) :
    (encode char pad data).length = 8 * ((data.length + 4) / 5) := by
  fun_induction encode char pad data with
  | case1 a b c d e data ih =>
    simp only [List.length_cons, ih]
    omega
  | case2 | case3 | case4 | case5 | case6 => simp

/-- A text starts with a character. -/
theorem exists_encode_cons {data : List Octet} (h : data ≠ []) :
    ∃ q rest, encode char pad data = char q :: rest := by
  fun_cases encode char pad data with
  | case6 => exact absurd rfl h
  | case1 | case2 | case3 | case4 | case5 => exact ⟨_, _, rfl⟩

end

end PaddedBase32
