import ZoweCommon.Lib.Hexadecimal

/-! The chunked transfer coding of a message body. -/
namespace ChunkedBody

open Hexadecimal (Octet isDigit IsNumeral)

def CRLF : List Octet := [0x0D, 0x0A]

/-- Chunks with their sizes, up to the one of size zero, that ends the text. -/
def decodeFrom : ℕ → List Octet → Option (List Octet)
  | 0, _ => none
  | fuel + 1, bytes =>
    let size := bytes.takeWhile isDigit
    let rest := bytes.dropWhile isDigit
    if size = [] ∨ rest.take 2 ≠ CRLF then none
    else if Hexadecimal.value size = 0 then if rest.drop 2 = CRLF then some [] else none
    else
      let data := (rest.drop 2).take (Hexadecimal.value size)
      let rest := (rest.drop 2).drop (Hexadecimal.value size)
      if data.length = Hexadecimal.value size ∧ rest.take 2 = CRLF then
        (decodeFrom fuel (rest.drop 2)).map (data ++ ·)
      else none

/-- The data of a chunked body. -/
def decode (bytes : List Octet) : Option (List Octet) := decodeFrom bytes.length bytes

section Encode

variable (numeral : ℕ → List Octet)

def chunk (data : List Octet) : List Octet := numeral data.length ++ (CRLF ++ (data ++ CRLF))

def encode (chunks : List (List Octet)) : List Octet :=
  chunks.flatMap (chunk numeral) ++ (numeral 0 ++ (CRLF ++ CRLF))

variable {numeral}

/-- A numeral ends before the line does. -/
theorem takeWhile_numeral (h : IsNumeral numeral) (n : ℕ) (rest : List Octet) :
    (numeral n ++ (CRLF ++ rest)).takeWhile isDigit = numeral n ∧
      (numeral n ++ (CRLF ++ rest)).dropWhile isDigit = CRLF ++ rest := by
  have hall := h.digits n
  constructor
  · rw [List.takeWhile_append_of_pos hall]
    have hstop : (CRLF ++ rest).takeWhile isDigit = [] := rfl
    rw [hstop, List.append_nil]
  · rw [List.dropWhile_append_of_pos hall]
    rfl

theorem decodeFrom_last (h : IsNumeral numeral) (fuel : ℕ) :
    decodeFrom (fuel + 1) (numeral 0 ++ (CRLF ++ CRLF)) = some [] := by
  obtain ⟨hsize, hrest⟩ := takeWhile_numeral h 0 CRLF
  rw [decodeFrom]
  simp only [hsize, hrest, h.value, h.ne_nil]
  rfl

theorem decodeFrom_chunk (h : IsNumeral numeral) (fuel : ℕ) {data : List Octet} (hne : data ≠ [])
    (rest : List Octet) : decodeFrom (fuel + 1) (chunk numeral data ++ rest) =
      (decodeFrom fuel rest).map (data ++ ·) := by
  have hassoc : chunk numeral data ++ rest =
      numeral data.length ++ (CRLF ++ (data ++ (CRLF ++ rest))) := by
    unfold chunk
    simp only [List.append_assoc]
  obtain ⟨hsize, hdrop⟩ := takeWhile_numeral h data.length (data ++ (CRLF ++ rest))
  have hpos : data.length ≠ 0 := fun hzero => hne (List.length_eq_zero_iff.mp hzero)
  have hline (text : List Octet) : (CRLF ++ text).take 2 = CRLF ∧ (CRLF ++ text).drop 2 = text :=
    ⟨rfl, rfl⟩
  rw [decodeFrom, hassoc]
  simp only [hsize, hdrop, h.value, h.ne_nil, hline, List.take_left, List.drop_left, hpos]
  rfl

theorem decodeFrom_encode (h : IsNumeral numeral) {chunks : List (List Octet)}
    (hne : ∀ data ∈ chunks, data ≠ []) {fuel : ℕ} (hfuel : chunks.length < fuel) :
    decodeFrom fuel (encode numeral chunks) = some chunks.flatten := by
  induction chunks generalizing fuel with
  | nil =>
    obtain ⟨fuel, rfl⟩ := Nat.exists_eq_add_of_lt hfuel
    exact decodeFrom_last h _
  | cons data chunks ih =>
    obtain ⟨fuel, rfl⟩ : ∃ k, fuel = k + 1 := Nat.exists_eq_succ_of_ne_zero (by omega)
    have hencode : encode numeral (data :: chunks) = chunk numeral data ++ encode numeral chunks := by
      unfold encode
      rw [List.flatMap_cons, List.append_assoc]
    have hmore := ih (fun more hmore => hne more (List.mem_cons_of_mem _ hmore))
      (Nat.lt_of_succ_lt_succ hfuel)
    rw [hencode, decodeFrom_chunk h fuel (hne data List.mem_cons_self), hmore]
    rfl

theorem length_lt_encode (h : IsNumeral numeral) (chunks : List (List Octet)) :
    chunks.length < (encode numeral chunks).length := by
  unfold encode
  induction chunks with
  | nil =>
    have hpos := List.length_pos_iff.mpr (h.ne_nil 0)
    rw [List.flatMap_nil, List.nil_append, List.length_append]
    exact Nat.lt_of_lt_of_le hpos (Nat.le_add_right _ _)
  | cons data chunks ih =>
    rw [List.flatMap_cons, List.append_assoc, List.length_append, List.length_cons]
    have hchunk : 0 < (chunk numeral data).length := by
      unfold chunk
      rw [List.length_append]
      have hpos := List.length_pos_iff.mpr (h.ne_nil data.length)
      omega
    omega

theorem decode_encode (h : IsNumeral numeral) {chunks : List (List Octet)}
    (hne : ∀ data ∈ chunks, data ≠ []) :
    decode (encode numeral chunks) = some chunks.flatten :=
  decodeFrom_encode h hne (length_lt_encode h chunks)

end Encode

end ChunkedBody
