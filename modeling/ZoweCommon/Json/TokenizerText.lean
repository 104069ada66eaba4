import ZoweCommon.Json.Tokenizer

/-! What the tokenizer makes of the text it stands at. -/
namespace ZoweCommon

open CLibrary CString

/-- The next character of a text. -/
def peek : List Byte → ℤ
  | [] => EOF
  | c :: _ => c.toInt

theorem toInt_ne_zero {c : Byte} (h : c ≠ 0) : c.toInt ≠ 0 := by
  intro hzero
  apply h
  rw [← BitVec.ofInt_toInt (x := c), hzero]
  rfl

theorem toInt_ne {c d : Byte} {z : ℤ} (h : c ≠ d) (hz : d.toInt = z) : c.toInt ≠ z := by
  intro heq
  exact h (BitVec.eq_of_toInt_eq (heq.trans hz.symm))

theorem toByte_toInt (c : Byte) : JsonTokenizer.toByte c.toInt = c := BitVec.ofInt_toInt

namespace JsonTokenizer

variable {t : JsonTokenizer} {text rest : List Byte} {fuel : ℕ}

/-- The tokenizer stands before a text, whose first character it may have looked at. -/
structure At (t : JsonTokenizer) (text : List Byte) : Prop where
  noNul : ∀ c ∈ text, c ≠ 0
  input : t.unreadChar = 0 ∧ t.input = text ∨ t.unreadChar = peek text ∧ t.input = text.tail

theorem peek_ne_zero (h : ∀ c ∈ text, c ≠ 0) : peek text ≠ 0 := by
  cases text with
  | nil => decide
  | cons c text => exact toInt_ne_zero (h c List.mem_cons_self)

theorem charStreamGet_eq (t : JsonTokenizer) :
    t.charStreamGet = (peek t.input, { t with input := t.input.tail }) := by
  cases t with
  | mk input _ _ _ _ _ _ _ => cases input <;> rfl

theorem At.jsonTokenizerRead (h : t.At text) :
    ∃ t', t.jsonTokenizerRead = (peek text, t') ∧ t'.At text.tail := by
  have hnul : ∀ c ∈ text.tail, c ≠ 0 := fun c hc => h.noNul c (List.mem_of_mem_tail hc)
  have hpeek := peek_ne_zero h.noNul
  unfold JsonTokenizer.jsonTokenizerRead
  rcases h.input with ⟨hunread, hinput⟩ | ⟨hunread, hinput⟩
  · rw [if_neg (by simp [hunread]), charStreamGet_eq, hinput]
    dsimp only
    by_cases hline : peek text = 0x0A
    · rw [if_pos hline]
      exact ⟨_, rfl, hnul, .inl ⟨hunread, rfl⟩⟩
    · rw [if_neg hline]
      exact ⟨_, rfl, hnul, .inl ⟨hunread, rfl⟩⟩
  · rw [if_pos (by rwa [hunread]), hunread]
    exact ⟨_, rfl, hnul, .inl ⟨rfl, hinput⟩⟩

theorem At.jsonTokenizerLookahead (h : t.At text) :
    ∃ t', t.jsonTokenizerLookahead = (peek text, t') ∧ t'.At text := by
  have hpeek := peek_ne_zero h.noNul
  unfold JsonTokenizer.jsonTokenizerLookahead
  rcases h.input with ⟨hunread, hinput⟩ | ⟨hunread, hinput⟩
  · have hread : ∃ t', t.jsonTokenizerRead = (peek text, t') ∧ t'.input = text.tail := by
      unfold JsonTokenizer.jsonTokenizerRead
      rw [if_neg (by simp [hunread]), charStreamGet_eq, hinput]
      dsimp only
      by_cases hline : peek text = 0x0A
      · rw [if_pos hline]
        exact ⟨_, rfl, rfl⟩
      · rw [if_neg hline]
        exact ⟨_, rfl, rfl⟩
    obtain ⟨t', hrun, hinput'⟩ := hread
    rw [if_neg (by simp [hunread]), hrun]
    exact ⟨_, rfl, h.noNul, .inr ⟨rfl, hinput'⟩⟩
  · rw [if_pos (by rwa [hunread]), hunread]
    exact ⟨t, rfl, h⟩

/-- White space is passed over, up to something else. -/
theorem At.jsonTokenizerSkipWhitespace {space : List Byte} (hspace : ∀ c ∈ space, isspace c.toInt = true)
    (hrest : isspace (peek rest) = false) : ∀ (fuel : ℕ) {t : JsonTokenizer},
    t.At (space ++ rest) → space.length < fuel →
    ∃ t', t.jsonTokenizerSkipWhitespace fuel = .ok t' ∧ t'.At rest := by
  induction space with
  | nil =>
    intro fuel t h hfuel
    obtain ⟨fuel, rfl⟩ : ∃ n, fuel = n + 1 := Nat.exists_eq_succ_of_ne_zero (by omega)
    obtain ⟨t', hrun, h'⟩ := h.jsonTokenizerLookahead
    refine ⟨t', ?_, h'⟩
    unfold JsonTokenizer.jsonTokenizerSkipWhitespace
    rw [hrun]
    simp only [List.nil_append, hrest]
    rfl
  | cons c space ih =>
    intro fuel t h hfuel
    obtain ⟨fuel, rfl⟩ : ∃ n, fuel = n + 1 := Nat.exists_eq_succ_of_ne_zero (by omega)
    obtain ⟨t₁, hrun₁, h₁⟩ := h.jsonTokenizerLookahead
    obtain ⟨t₂, hrun₂, h₂⟩ := h₁.jsonTokenizerRead
    obtain ⟨t', hrun', h'⟩ := ih (fun c hc => hspace c (List.mem_cons_of_mem _ hc)) fuel h₂
      (by rw [List.length_cons] at hfuel; omega)
    refine ⟨t', ?_, h'⟩
    have hc : isspace (peek (c :: space ++ rest)) = true := hspace c List.mem_cons_self
    unfold JsonTokenizer.jsonTokenizerSkipWhitespace
    rw [hrun₁]
    dsimp only
    rw [if_pos hc, hrun₂]
    exact hrun'

/-! Strings -/

/-- Which string the characters between two quotes stand for. -/
inductive Decodes : List Byte → List Byte → Prop
  | nil : Decodes [] []
  | plain {c : Byte} {body s : List Byte} (hprint : isprint c.toInt = true) (hquote : c ≠ 0x22)
      (hbackslash : c ≠ 0x5C) (h : Decodes body s) : Decodes (c :: body) (c :: s)
  | escaped (c : Byte) {body s : List Byte} (h : Decodes body s) :
      Decodes (0x5C :: c :: body) (unescape c.toInt :: s)
  | dropped {c : Byte} {body s : List Byte} (hprint : isprint c.toInt = false) (heof : c.toInt ≠ EOF)
      (hline : c ≠ 0x0A) (h : Decodes body s) : Decodes (c :: body) s

theorem Decodes.append {body body' s s' : List Byte} (h : Decodes body s) (h' : Decodes body' s') :
    Decodes (body ++ body') (s ++ s') := by
  induction h with
  | nil => exact h'
  | plain hprint hquote hbackslash _ ih => exact .plain hprint hquote hbackslash ih
  | escaped c _ ih => exact .escaped c ih
  | dropped hprint heof hline _ ih => exact .dropped hprint heof hline ih

/-- The token buffer grows up to this many characters. -/
def MAX_TOKEN : ℕ := 2 ^ 26

theorem At.ensureRoom (h : t.At text) (pos : ℕ) (hpos : pos < MAX_TOKEN) :
    ∃ t', t.ensureRoom pos = some t' ∧ t'.At text := by
  unfold JsonTokenizer.ensureRoom
  by_cases hfull : t.bufferSize ≤ pos
  · have hsize : t.bufferSize ≤ JSON_TOKEN_BUFFER_SIZE * 2 ^ 11 := by
      obtain ⟨k, hk, hsize⟩ := t.bufferSize_eq
      rcases Nat.lt_or_eq_of_le hk with hlt | rfl
      · rw [hsize]
        exact Nat.mul_le_mul_left _ (Nat.pow_le_pow_right (by omega) (by omega))
      · have hmax : JSON_TOKEN_BUFFER_SIZE * 2 ^ 12 = MAX_TOKEN := rfl
        omega
    have hmax : JSON_TOKEN_BUFFER_SIZE * 2 ^ 11 = 33554432 := rfl
    have hlimit : ¬JSON_TOKEN_BUFFER_SIZE_LIMIT ≤ 2 * t.bufferSize := by
      unfold JSON_TOKEN_BUFFER_SIZE_LIMIT
      omega
    rw [if_pos hfull]
    unfold jsonTokenizerGrowBuffer
    rw [if_neg (by omega), dif_neg hlimit]
    exact ⟨_, rfl, h.noNul, h.input⟩
  · rw [if_neg hfull]
    exact ⟨t, rfl, h⟩

theorem At.getStringTokenFrom {body s : List Byte} (hdecodes : Decodes body s) :
    ∀ (fuel : ℕ) (buffer : List Byte) {t : JsonTokenizer}, t.At (body ++ 0x22 :: rest) →
    buffer.length + s.length ≤ MAX_TOKEN → body.length < fuel →
    ∃ t', getStringTokenFrom fuel t buffer =
        .ok (makeJsonToken .JSON_TOKEN_STRING (buffer ++ s), t') ∧ t'.At rest := by
  induction hdecodes with
  | nil =>
    intro fuel buffer t h _ hfuel
    obtain ⟨fuel, rfl⟩ : ∃ n, fuel = n + 1 := Nat.exists_eq_succ_of_ne_zero (by omega)
    obtain ⟨t₁, hrun₁, h₁⟩ := h.jsonTokenizerLookahead
    obtain ⟨t₂, hrun₂, h₂⟩ := h₁.jsonTokenizerRead
    refine ⟨t₂, ?_, h₂⟩
    have hquote : peek ([] ++ 0x22 :: rest) = 0x22 := rfl
    unfold JsonTokenizer.getStringTokenFrom
    rw [hrun₁, hquote, List.append_nil]
    dsimp only
    rw [if_neg (by decide), if_pos rfl, hrun₂]
    rfl
  | @plain c body s hprint hquote hbackslash _ ih =>
    intro fuel buffer t h hroom hfuel
    rw [List.length_cons] at hroom hfuel
    obtain ⟨fuel, rfl⟩ : ∃ n, fuel = n + 1 := Nat.exists_eq_succ_of_ne_zero (by omega)
    obtain ⟨t₁, hrun₁, h₁⟩ := h.jsonTokenizerLookahead
    obtain ⟨t₂, hrun₂, h₂⟩ := h₁.jsonTokenizerRead
    obtain ⟨t₃, hrun₃, h₃⟩ := h₂.ensureRoom buffer.length (by omega)
    obtain ⟨t', hrun', h'⟩ := ih fuel (buffer ++ [c]) h₃
      (by rw [List.length_append, List.length_singleton]; omega) (by omega)
    refine ⟨t', ?_, h'⟩
    have hpeek : peek (c :: body ++ 0x22 :: rest) = c.toInt := rfl
    have heof : ¬(c.toInt = EOF ∨ c.toInt = 0x0A) := by
      rintro (heq | heq) <;> rw [heq] at hprint <;> exact absurd hprint (by decide)
    have hquote' : c.toInt ≠ 0x22 := toInt_ne hquote rfl
    have hbackslash' : c.toInt ≠ 0x5C := toInt_ne hbackslash rfl
    unfold JsonTokenizer.getStringTokenFrom
    rw [hrun₁, hpeek]
    dsimp only
    rw [if_neg heof, if_neg hquote', if_neg hbackslash', hrun₂, hpeek]
    dsimp only
    rw [if_pos hprint, hrun₃, toByte_toInt]
    dsimp only
    rw [hrun', List.append_assoc, List.singleton_append]
  | @escaped c body s _ ih =>
    intro fuel buffer t h hroom hfuel
    rw [List.length_cons] at hroom hfuel
    rw [List.length_cons] at hfuel
    obtain ⟨fuel, rfl⟩ : ∃ n, fuel = n + 1 := Nat.exists_eq_succ_of_ne_zero (by omega)
    obtain ⟨t₁, hrun₁, h₁⟩ := h.jsonTokenizerLookahead
    obtain ⟨t₂, hrun₂, h₂⟩ := h₁.jsonTokenizerRead
    obtain ⟨t₃, hrun₃, h₃⟩ := h₂.jsonTokenizerRead
    obtain ⟨t₄, hrun₄, h₄⟩ := h₃.ensureRoom buffer.length (by omega)
    obtain ⟨t', hrun', h'⟩ := ih fuel (buffer ++ [unescape c.toInt]) h₄
      (by rw [List.length_append, List.length_singleton]; omega) (by omega)
    refine ⟨t', ?_, h'⟩
    have hpeek : peek (0x5C :: c :: body ++ 0x22 :: rest) = 0x5C := rfl
    have hpeek₂ : peek (0x5C :: c :: body ++ 0x22 :: rest).tail = c.toInt := rfl
    unfold JsonTokenizer.getStringTokenFrom
    rw [hrun₁, hpeek]
    dsimp only
    rw [if_neg (by decide), if_neg (by decide), if_pos rfl, hrun₂]
    dsimp only
    rw [hrun₃, hpeek₂]
    dsimp only
    rw [hrun₄]
    dsimp only
    rw [hrun', List.append_assoc, List.singleton_append]
  | @dropped c body s hprint heof hline _ ih =>
    intro fuel buffer t h hroom hfuel
    rw [List.length_cons] at hfuel
    obtain ⟨fuel, rfl⟩ : ∃ n, fuel = n + 1 := Nat.exists_eq_succ_of_ne_zero (by omega)
    obtain ⟨t₁, hrun₁, h₁⟩ := h.jsonTokenizerLookahead
    obtain ⟨t₂, hrun₂, h₂⟩ := h₁.jsonTokenizerRead
    obtain ⟨t', hrun', h'⟩ := ih fuel buffer h₂ hroom (by omega)
    refine ⟨t', ?_, h'⟩
    have hpeek : peek (c :: body ++ 0x22 :: rest) = c.toInt := rfl
    have hprintable : ∀ d : Byte, isprint d.toInt = true → c ≠ d := by
      rintro d hd rfl
      rw [hprint] at hd
      exact absurd hd Bool.false_ne_true
    have hline' : c.toInt ≠ 0x0A := toInt_ne hline rfl
    have hquote' : c.toInt ≠ 0x22 := toInt_ne (hprintable 0x22 (by decide)) rfl
    have hbackslash' : c.toInt ≠ 0x5C := toInt_ne (hprintable 0x5C (by decide)) rfl
    unfold JsonTokenizer.getStringTokenFrom
    rw [hrun₁, hpeek]
    dsimp only
    rw [if_neg (not_or.mpr ⟨heof, hline'⟩), if_neg hquote', if_neg hbackslash', hrun₂, hpeek]
    dsimp only
    rw [if_neg (by rw [hprint]; exact Bool.false_ne_true), hrun']

theorem At.getStringToken {body s : List Byte} (hdecodes : Decodes body s)
    (h : t.At (0x22 :: body ++ 0x22 :: rest)) (hroom : s.length ≤ MAX_TOKEN)
    (hfuel : body.length < fuel) :
    ∃ t', getStringToken fuel t = .ok (makeJsonToken .JSON_TOKEN_STRING s, t') ∧ t'.At rest := by
  obtain ⟨t₁, hrun₁, h₁⟩ := h.jsonTokenizerRead
  obtain ⟨t', hrun', h'⟩ := At.getStringTokenFrom hdecodes fuel [] h₁
    (by rw [List.length_nil]; omega) hfuel
  refine ⟨t', ?_, h'⟩
  unfold JsonTokenizer.getStringToken
  rw [hrun₁]
  exact hrun'

/-! Numbers and words -/

theorem addTokenChar_of_lt (t : JsonTokenizer) {buffer : List Byte}
    (h : buffer.length < JSON_TOKEN_BUFFER_SIZE) (c : Byte) :
    t.addTokenChar buffer c.toInt = buffer ++ [c] := by
  have hsize : JSON_TOKEN_BUFFER_SIZE ≤ t.bufferSize := by
    obtain ⟨k, -, hsize⟩ := t.bufferSize_eq
    rw [hsize]
    exact Nat.le_mul_of_pos_right _ (Nat.two_pow_pos k)
  unfold addTokenChar
  rw [if_pos (by omega), toByte_toInt]

theorem At.readWhile {class_ : ℤ → Bool} {word : List Byte}
    (hword : ∀ c ∈ word, class_ c.toInt = true) (hrest : class_ (peek rest) = false) :
    ∀ (fuel : ℕ) (buffer : List Byte) {t : JsonTokenizer}, t.At (word ++ rest) →
    buffer.length + word.length ≤ JSON_TOKEN_BUFFER_SIZE → word.length < fuel →
    ∃ t', readWhile class_ fuel t buffer = .ok (buffer ++ word, t') ∧ t'.At rest := by
  induction word with
  | nil =>
    intro fuel buffer t h _ hfuel
    obtain ⟨fuel, rfl⟩ : ∃ n, fuel = n + 1 := Nat.exists_eq_succ_of_ne_zero (by omega)
    obtain ⟨t', hrun, h'⟩ := h.jsonTokenizerLookahead
    refine ⟨t', ?_, h'⟩
    unfold JsonTokenizer.readWhile
    rw [hrun, List.nil_append, List.append_nil]
    dsimp only
    rw [if_neg (by rw [hrest]; exact Bool.false_ne_true)]
    rfl
  | cons c word ih =>
    intro fuel buffer t h hroom hfuel
    rw [List.length_cons] at hroom hfuel
    obtain ⟨fuel, rfl⟩ : ∃ n, fuel = n + 1 := Nat.exists_eq_succ_of_ne_zero (by omega)
    obtain ⟨t₁, hrun₁, h₁⟩ := h.jsonTokenizerLookahead
    obtain ⟨t₂, hrun₂, h₂⟩ := h₁.jsonTokenizerRead
    obtain ⟨t', hrun', h'⟩ := ih (fun c hc => hword c (List.mem_cons_of_mem _ hc)) fuel (buffer ++ [c])
      h₂ (by rw [List.length_append, List.length_singleton]; omega) (by omega)
    refine ⟨t', ?_, h'⟩
    have hpeek : peek (c :: word ++ rest) = c.toInt := rfl
    unfold JsonTokenizer.readWhile
    rw [hrun₁, hpeek]
    dsimp only
    rw [if_pos (hword c List.mem_cons_self), hrun₂, hpeek]
    dsimp only
    rw [addTokenChar_of_lt _ (by omega), hrun', List.append_assoc, List.singleton_append]

theorem At.readSign_minus {text : List Byte} (h : t.At (0x2D :: text)) :
    ∃ t', t.readSign = ([0x2D], t') ∧ t'.At text := by
  obtain ⟨t₁, hrun₁, h₁⟩ := h.jsonTokenizerLookahead
  obtain ⟨t₂, hrun₂, h₂⟩ := h₁.jsonTokenizerRead
  refine ⟨t₂, ?_, h₂⟩
  have hpeek : peek (0x2D :: text) = 0x2D := rfl
  unfold readSign
  rw [hrun₁, hpeek]
  dsimp only
  rw [if_pos rfl, hrun₂]
  rfl

theorem At.readSign_none (h : t.At text) (hsign : peek text ≠ 0x2D) :
    ∃ t', t.readSign = ([], t') ∧ t'.At text := by
  obtain ⟨t₁, hrun₁, h₁⟩ := h.jsonTokenizerLookahead
  refine ⟨t₁, ?_, h₁⟩
  unfold readSign
  rw [hrun₁]
  dsimp only
  rw [if_neg hsign]

theorem peek_append_digits {n : ℕ} (rest : List Byte) :
    ∃ d < 10, ∃ text, (Decimal.digits n).map digitChar = digitChar d :: text ∧
      peek ((Decimal.digits n).map digitChar ++ rest) = (digitChar d).toInt := by
  obtain ⟨d, hd, text, htext⟩ := exists_digitChar_cons n
  exact ⟨d, hd, text, htext, by rw [htext]; rfl⟩

theorem At.getDigits {n : ℕ} {sign : List Byte} {t₀ : JsonTokenizer}
    (h : t.At ((Decimal.digits n).map digitChar ++ rest)) (hsign : t₀.readSign = (sign, t))
    (hrest : isdigit (peek rest) = false)
    (hroom : sign.length + (Decimal.digits n).length ≤ JSON_TOKEN_BUFFER_SIZE)
    (hfuel : (Decimal.digits n).length < fuel) :
    ∃ t', getNumberTokenV1 fuel t₀ =
      .ok (makeJsonToken .JSON_TOKEN_NUMBER (sign ++ (Decimal.digits n).map digitChar), t') ∧
      t'.At rest := by
  obtain ⟨d, hd, digits, hdigits, hpeek⟩ := peek_append_digits (n := n) rest
  have hlength : (Decimal.digits n).length = digits.length + 1 := by
    rw [← List.length_map digitChar, hdigits, List.length_cons]
  have hclass : ∀ c ∈ digits, isdigit c.toInt = true := by
    intro c hc
    have hmem : c ∈ (Decimal.digits n).map digitChar := by
      rw [hdigits]
      exact List.mem_cons_of_mem _ hc
    obtain ⟨e, he, rfl⟩ := List.mem_map.mp hmem
    exact isdigit_digitChar (Decimal.digits_lt he)
  obtain ⟨t₁, hrun₁, h₁⟩ := h.jsonTokenizerLookahead
  obtain ⟨t₂, hrun₂, h₂⟩ := h₁.jsonTokenizerRead
  rw [hdigits] at h₂
  obtain ⟨t', hrun', h'⟩ := At.readWhile hclass hrest fuel (sign ++ [digitChar d]) h₂
    (by rw [List.length_append, List.length_singleton]; omega) (by omega)
  refine ⟨t', ?_, h'⟩
  unfold getNumberTokenV1
  rw [hsign]
  dsimp only
  rw [hrun₁, hpeek]
  dsimp only
  rw [hrun₂, hpeek]
  dsimp only
  rw [if_pos (isdigit_digitChar hd), toByte_toInt, hrun', Exec.ok_bind, hdigits]
  simp

theorem At.getNumberTokenV1 {z : ℤ} (h : t.At (formatD z ++ rest))
    (hrest : isdigit (peek rest) = false) (hroom : (formatD z).length ≤ JSON_TOKEN_BUFFER_SIZE)
    (hfuel : (formatD z).length < fuel) :
    ∃ t', getNumberTokenV1 fuel t = .ok (makeJsonToken .JSON_TOKEN_NUMBER (formatD z), t') ∧
      t'.At rest := by
  by_cases hneg : z < 0
  · rw [formatD_of_neg hneg] at h hroom hfuel ⊢
    rw [List.length_cons, List.length_map] at hroom hfuel
    obtain ⟨t₁, hrun₁, h₁⟩ := h.readSign_minus
    exact h₁.getDigits hrun₁ hrest (by rw [List.length_singleton]; omega) (by omega)
  · rw [formatD_of_nonneg hneg] at h hroom hfuel ⊢
    rw [List.length_map] at hroom hfuel
    have hsign : peek ((Decimal.digits z.natAbs).map digitChar ++ rest) ≠ 0x2D := by
      obtain ⟨d, hd, -, -, hpeek⟩ := peek_append_digits (n := z.natAbs) rest
      rw [hpeek, toInt_digitChar hd]
      omega
    obtain ⟨t₁, hrun₁, h₁⟩ := h.readSign_none hsign
    exact h₁.getDigits hrun₁ hrest (by rw [List.length_nil]; omega) hfuel

theorem At.getReservedWordToken {word : List Byte} (hword : ∀ c ∈ word, isalpha c.toInt = true)
    (h : t.At (word ++ rest)) (hrest : isalpha (peek rest) = false)
    (hroom : word.length ≤ JSON_TOKEN_BUFFER_SIZE) (hfuel : word.length < fuel)
    {type : JsonTokenType}
    (htype : (word = ascii "true" ∨ word = ascii "false") ∧ type = .JSON_TOKEN_BOOLEAN ∨
      word = ascii "null" ∧ type = .JSON_TOKEN_NULL) :
    ∃ t', getReservedWordToken fuel t = .ok (makeJsonToken type word, t') ∧ t'.At rest := by
  obtain ⟨t', hrun, h'⟩ := At.readWhile hword hrest fuel [] h (by rw [List.length_nil]; omega) hfuel
  refine ⟨t', ?_, h'⟩
  unfold JsonTokenizer.getReservedWordToken
  rw [hrun, List.nil_append, Exec.ok_bind]
  rcases htype with ⟨rfl | rfl, rfl⟩ | ⟨rfl, rfl⟩
  · rfl
  · rfl
  · rfl

end JsonTokenizer
end ZoweCommon
