import Mathlib.Data.List.DropRight

/-! Base 64 with padding: four characters for three octets, over any alphabet. -/
namespace PaddedBase64

abbrev Octet := BitVec 8

/-- The characters for six bits each, and the one that fills up the last group. -/
structure Alphabet where
  char : BitVec 6 → Octet
  sextet? : Octet → Option (BitVec 6)
  pad : Octet
  sextet?_char : ∀ bits, sextet? (char bits) = some bits
  sextet?_pad : sextet? pad = none

def firstOctet (a b : BitVec 6) : Octet := (a.zeroExtend 8 <<< 2) ||| (b.zeroExtend 8 >>> 4)

def secondOctet (b c : BitVec 6) : Octet := (b.zeroExtend 8 <<< 4) ||| (c.zeroExtend 8 >>> 2)

def thirdOctet (c d : BitVec 6) : Octet := (c.zeroExtend 8 <<< 6) ||| d.zeroExtend 8

def firstSextet (x : Octet) : BitVec 6 := (x >>> 2).truncate 6

def secondSextet (x y : Octet) : BitVec 6 := ((x <<< 4) ||| (y >>> 4)).truncate 6

def thirdSextet (y z : Octet) : BitVec 6 := ((y <<< 2) ||| (z >>> 6)).truncate 6

def fourthSextet (z : Octet) : BitVec 6 := z.truncate 6

theorem firstOctet_sextets (x y : Octet) : firstOctet (firstSextet x) (secondSextet x y) = x := by
  unfold firstOctet firstSextet secondSextet
  ext i hi
  have hcases : i = 0 ∨ i = 1 ∨ i = 2 ∨ i = 3 ∨ i = 4 ∨ i = 5 ∨ i = 6 ∨ i = 7 := by omega
  rcases hcases with rfl | rfl | rfl | rfl | rfl | rfl | rfl | rfl <;> simp

theorem secondOctet_sextets (x y z : Octet) :
    secondOctet (secondSextet x y) (thirdSextet y z) = y := by
  unfold secondOctet secondSextet thirdSextet
  ext i hi
  have hcases : i = 0 ∨ i = 1 ∨ i = 2 ∨ i = 3 ∨ i = 4 ∨ i = 5 ∨ i = 6 ∨ i = 7 := by omega
  rcases hcases with rfl | rfl | rfl | rfl | rfl | rfl | rfl | rfl <;> simp

theorem thirdOctet_sextets (y z : Octet) : thirdOctet (thirdSextet y z) (fourthSextet z) = z := by
  unfold thirdOctet thirdSextet fourthSextet
  ext i hi
  have hcases : i = 0 ∨ i = 1 ∨ i = 2 ∨ i = 3 ∨ i = 4 ∨ i = 5 ∨ i = 6 ∨ i = 7 := by omega
  rcases hcases with rfl | rfl | rfl | rfl | rfl | rfl | rfl | rfl <;> simp

/-! The sextets as they are cut out of octets by a mask -/

theorem secondSextet_masked (x y : Octet) :
    ((((x <<< 4) &&& 0x3F) ||| (y >>> 4)).truncate 6 : BitVec 6) = secondSextet x y := by
  unfold secondSextet
  ext i hi
  have hcases : i = 0 ∨ i = 1 ∨ i = 2 ∨ i = 3 ∨ i = 4 ∨ i = 5 := by omega
  rcases hcases with rfl | rfl | rfl | rfl | rfl | rfl <;> simp

theorem thirdSextet_masked (y z : Octet) :
    ((((y <<< 2) &&& 0x3F) ||| (z >>> 6)).truncate 6 : BitVec 6) = thirdSextet y z := by
  unfold thirdSextet
  ext i hi
  have hcases : i = 0 ∨ i = 1 ∨ i = 2 ∨ i = 3 ∨ i = 4 ∨ i = 5 := by omega
  rcases hcases with rfl | rfl | rfl | rfl | rfl | rfl <;> simp

theorem fourthSextet_masked (z : Octet) :
    ((z &&& 0x3F).truncate 6 : BitVec 6) = fourthSextet z := by
  unfold fourthSextet
  ext i hi
  have hcases : i = 0 ∨ i = 1 ∨ i = 2 ∨ i = 3 ∨ i = 4 ∨ i = 5 := by omega
  rcases hcases with rfl | rfl | rfl | rfl | rfl | rfl <;> simp

/-- Padding is all that is dropped from the end. -/
theorem rdropWhile_replicate {pad : Octet} {chars : List Octet} (h : ∀ c ∈ chars, c ≠ pad) (k : ℕ) :
    (chars ++ List.replicate k pad).rdropWhile (· = pad) = chars := by
  induction k with
  | zero =>
    rw [List.replicate_zero, List.append_nil, List.rdropWhile_eq_self_iff]
    intro hne
    simpa using h _ (List.getLast_mem hne)
  | succ k ih =>
    rw [List.replicate_succ', ← List.append_assoc, List.rdropWhile_concat_pos _ _ _ (by simp), ih]

section Coding

variable (A : Alphabet)

def encode : List Octet → List Octet
  | x :: y :: z :: data =>
    A.char (firstSextet x) :: A.char (secondSextet x y) :: A.char (thirdSextet y z) ::
      A.char (fourthSextet z) :: encode data
  | [x, y] => [A.char (firstSextet x), A.char (secondSextet x y), A.char (thirdSextet y 0), A.pad]
  | [x] => [A.char (firstSextet x), A.char (secondSextet x 0), A.pad, A.pad]
  | [] => []

/-- The octets of a text, if it is one: padding is nowhere but at its end. -/
def decode : List Octet → Option (List Octet)
  | [] => some []
  | a :: b :: c :: d :: text =>
    match A.sextet? a, A.sextet? b, A.sextet? c, A.sextet? d with
    | some a, some b, some c, some d =>
      (decode text).map ([firstOctet a b, secondOctet b c, thirdOctet c d] ++ ·)
    | some a, some b, some c, none =>
      if d = A.pad ∧ text = [] then some [firstOctet a b, secondOctet b c] else none
    | some a, some b, none, none =>
      if c = A.pad ∧ d = A.pad ∧ text = [] then some [firstOctet a b] else none
    | _, _, _, _ => none
  | _ => none

variable {A}

theorem encode_eq_nil {data : List Octet} : encode A data = [] ↔ data = [] := by
  match data with
  | [] => exact Iff.rfl
  | [_] | [_, _] | _ :: _ :: _ :: _ => simp [encode]

theorem flatMap_encode_eq_nil {texts : List (List Octet)} :
    texts.flatMap (encode A) = [] ↔ texts.flatten = [] := by
  rw [List.flatMap_eq_nil_iff, List.flatten_eq_nil_iff]
  exact forall₂_congr fun text _ => encode_eq_nil

theorem decode_encode_append (data text : List Octet) :
    decode A (encode A data ++ text) =
      if 3 ∣ data.length then (decode A text).map (data ++ ·)
      else if text = [] then some data else none := by
  fun_induction encode A data with
  | case1 x y z data ih =>
    have hdvd : 3 ∣ (x :: y :: z :: data).length ↔ 3 ∣ data.length := by
      simp only [List.length_cons]
      omega
    simp only [List.cons_append, decode, A.sextet?_char, ih, hdvd, firstOctet_sextets,
      secondOctet_sextets, thirdOctet_sextets]
    split_ifs with hthree hnil
    · rw [Option.map_map]
      rfl
    · rfl
    · rfl
  | case2 x y =>
    have hdvd : ¬3 ∣ [x, y].length := by simp
    rw [if_neg hdvd]
    simp only [List.cons_append, List.nil_append, decode, A.sextet?_char, A.sextet?_pad,
      firstOctet_sextets, secondOctet_sextets, true_and]
  | case3 x =>
    have hdvd : ¬3 ∣ [x].length := by simp
    rw [if_neg hdvd]
    simp only [List.cons_append, List.nil_append, decode, A.sextet?_char, A.sextet?_pad,
      firstOctet_sextets, true_and]
  | case4 => simp

theorem decode_encode (data : List Octet) : decode A (encode A data) = some data := by
  have h := decode_encode_append (A := A) data []
  rw [List.append_nil] at h
  rw [h, decode]
  simp

/-- After a text whose length is no multiple of three there is nothing. -/
def Aligned : List (List Octet) → Prop
  | [] => True
  | text :: texts => (3 ∣ text.length ∨ texts.flatten = []) ∧ Aligned texts

theorem aligned_of_flatten {texts : List (List Octet)} (h : texts.flatten = []) :
    Aligned texts := by
  induction texts with
  | nil => trivial
  | cons text texts ih =>
    rw [List.flatten_cons, List.append_eq_nil_iff] at h
    exact ⟨Or.inr h.2, ih h.2⟩

theorem decode_flatMap_iff (texts : List (List Octet)) (data : List Octet) :
    decode A (texts.flatMap (encode A)) = some data ↔ Aligned texts ∧ texts.flatten = data := by
  induction texts generalizing data with
  | nil => simp [decode, Aligned]
  | cons text texts ih =>
    rw [List.flatMap_cons, decode_encode_append, List.flatten_cons, Aligned]
    split_ifs with hthree hnil
    · rw [Option.map_eq_some_iff]
      constructor
      · rintro ⟨rest, hrest, rfl⟩
        obtain ⟨haligned, rfl⟩ := (ih rest).mp hrest
        exact ⟨⟨Or.inl hthree, haligned⟩, rfl⟩
      · rintro ⟨⟨-, haligned⟩, rfl⟩
        exact ⟨texts.flatten, (ih _).mpr ⟨haligned, rfl⟩, rfl⟩
    · have hflat := flatMap_encode_eq_nil.mp hnil
      rw [hflat, List.append_nil, Option.some.injEq]
      simp [aligned_of_flatten hflat]
    · have hflat : texts.flatten ≠ [] := fun h => hnil (flatMap_encode_eq_nil.mpr h)
      simp [hthree, hflat]

end Coding

section Ascii

/-- The letters, the digits, and two more characters. -/
def asciiChar (bits : BitVec 6) : Octet :=
  let n := bits.toNat
  BitVec.ofNat 8 (if n < 26 then 0x41 + n else if n < 52 then 0x47 + n else if n < 62 then n - 4
    else if n = 62 then 0x2B else 0x2F)

def asciiSextet? (c : Octet) : Option (BitVec 6) :=
  let n := c.toNat
  if 0x41 ≤ n ∧ n ≤ 0x5A then some (BitVec.ofNat 6 (n - 0x41))
  else if 0x61 ≤ n ∧ n ≤ 0x7A then some (BitVec.ofNat 6 (n - 0x47))
  else if 0x30 ≤ n ∧ n ≤ 0x39 then some (BitVec.ofNat 6 (n + 4))
  else if n = 0x2B then some 62
  else if n = 0x2F then some 63
  else none

def ascii : Alphabet where
  char := asciiChar
  sextet? := asciiSextet?
  pad := 0x3D
  sextet?_char := by decide +kernel
  sextet?_pad := by decide

end Ascii

end PaddedBase64
