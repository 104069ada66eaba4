import Mathlib.Data.List.Basic

/-! Base 64 for URLs: four characters for three octets, and no padding. -/
namespace Base64url

abbrev Octet := BitVec 8

def sextet? (c : Octet) : Option ℕ :=
  if 0x41 ≤ c.toNat ∧ c.toNat ≤ 0x5A then some (c.toNat - 0x41)
  else if 0x61 ≤ c.toNat ∧ c.toNat ≤ 0x7A then some (c.toNat - 0x47)
  else if 0x30 ≤ c.toNat ∧ c.toNat ≤ 0x39 then some (c.toNat + 4)
  else if c = 0x2D then some 62
  else if c = 0x5F then some 63
  else none

def sextet (c : Octet) : ℕ := (sextet? c).getD 0

/-- A text that stands for some octets. -/
structure IsText (text : List Octet) : Prop where
  ne_nil : text ≠ []
  sextets : ∀ c ∈ text, (sextet? c).isSome
  length : text.length % 4 ≠ 1

instance (text : List Octet) : Decidable (IsText text) :=
  decidable_of_iff (text ≠ [] ∧ text.all (fun c => (sextet? c).isSome) = true ∧ text.length % 4 ≠ 1)
    ⟨fun h => ⟨h.1, List.all_eq_true.mp h.2.1, h.2.2⟩,
      fun h => ⟨h.ne_nil, List.all_eq_true.mpr h.sextets, h.length⟩⟩

def firstOctet (a b : Octet) : Octet := BitVec.ofNat 8 (4 * sextet a + sextet b / 16)

def secondOctet (b c : Octet) : Octet := BitVec.ofNat 8 (16 * sextet b + sextet c / 4)

def thirdOctet (c d : Octet) : Octet := BitVec.ofNat 8 (64 * sextet c + sextet d)

/-- The octets that a text stands for; of the last group there may be less. -/
def decode : List Octet → List Octet
  | a :: b :: c :: d :: text =>
    firstOctet a b :: secondOctet b c :: thirdOctet c d :: decode text
  | [a, b, c] => [firstOctet a b, secondOctet b c]
  | [a, b] => [firstOctet a b]
  | _ => []

/-- Groups of four are taken one by one. -/
theorem decode_append (n : ℕ) {full : List Octet} (h : full.length = 4 * n) (tail : List Octet) :
    decode (full ++ tail) = decode full ++ decode tail := by
  induction n generalizing full with
  | zero =>
    rw [List.length_eq_zero_iff.mp h]
    rfl
  | succ n ih =>
    match full, h with
    | a :: b :: c :: d :: full, h =>
      have hlength : full.length = 4 * n := by
        simp only [List.length_cons] at h
        omega
      simp only [List.cons_append, decode]
      rw [ih hlength]

/-- Groups of four, and what is left. -/
theorem exists_groups (text : List Octet) : ∃ n full tail, text = full ++ tail ∧
    full.length = 4 * n ∧ tail.length < 4 ∧ tail.length = text.length % 4 := by
  refine ⟨text.length / 4, text.take (4 * (text.length / 4)), text.drop (4 * (text.length / 4)),
    (List.take_append_drop _ _).symm, ?_, ?_, ?_⟩
  · rw [List.length_take]
    omega
  · rw [List.length_drop]
    omega
  · rw [List.length_drop]
    omega

end Base64url
