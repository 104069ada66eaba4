import ZoweCommon.Json.Parser
import ZoweCommon.Json.TokenizerText

/-! The parser on a text whose next token is known. -/
namespace ZoweCommon

open CLibrary CString JsonTokenizer

namespace JsonParser

/-- The texts of the tokens, before what comes next. -/
inductive Scans (rest : List Byte) : List Byte → JsonToken → Prop
  | string {body s : List Byte} (h : Decodes body s) (hroom : s.length ≤ MAX_TOKEN) :
      Scans rest (0x22 :: body ++ [0x22]) (makeJsonToken .JSON_TOKEN_STRING s)
  | number {z : ℤ} (hroom : (formatD z).length ≤ JSON_TOKEN_BUFFER_SIZE)
      (hrest : isdigit (peek rest) = false) :
      Scans rest (formatD z) (makeJsonToken .JSON_TOKEN_NUMBER (formatD z))
  | boolean (b : Bool) (hrest : isalpha (peek rest) = false) :
      Scans rest (if b then ascii "true" else ascii "false")
        (makeJsonToken .JSON_TOKEN_BOOLEAN (if b then ascii "true" else ascii "false"))
  | null (hrest : isalpha (peek rest) = false) :
      Scans rest (ascii "null") (makeJsonToken .JSON_TOKEN_NULL (ascii "null"))
  | punctuation {c : Byte} {token : JsonToken} (hc : c ∈ ([0x7B, 0x7D, 0x5B, 0x5D, 0x3A, 0x2C] : List Byte))
      (h : punctuation c.toInt = some token) : Scans rest [c] token
  | eof (h : rest = []) : Scans rest [] (makeJsonToken .JSON_TOKEN_EOF (ascii "EOF"))

variable {p : JsonParser} {rest word : List Byte} {token : JsonToken}

/-- A character that begins a punctuation token begins no other. -/
theorem punctuation_class {c : Byte} (hc : c ∈ ([0x7B, 0x7D, 0x5B, 0x5D, 0x3A, 0x2C] : List Byte)) :
    c.toInt ≠ 0x22 ∧ (isdigit c.toInt || decide (c.toInt = 0x2D)) = false ∧
      isalpha c.toInt = false ∧ isspace c.toInt = false := by
  revert c
  decide

theorem formatD_class (z : ℤ) (rest : List Byte) : peek (formatD z ++ rest) ≠ 0x22 ∧
    (isdigit (peek (formatD z ++ rest)) || decide (peek (formatD z ++ rest) = 0x2D)) = true ∧
    isspace (peek (formatD z ++ rest)) = false := by
  by_cases hneg : z < 0
  · have hpeek : peek (formatD z ++ rest) = 0x2D := by
      rw [formatD_of_neg hneg]
      rfl
    rw [hpeek]
    decide
  · obtain ⟨d, hd, -, -, hpeek⟩ := peek_append_digits (n := z.natAbs) rest
    rw [formatD_of_nonneg hneg, hpeek]
    refine ⟨?_, ?_, not_isspace_digitChar hd⟩
    · rw [toInt_digitChar hd]
      omega
    · rw [isdigit_digitChar hd]
      rfl

theorem Scans.not_isspace (h : Scans rest word token) : isspace (peek (word ++ rest)) = false := by
  cases h with
  | string => rfl
  | number => exact (formatD_class _ _).2.2
  | boolean b => cases b <;> rfl
  | null => rfl
  | punctuation hc => exact (punctuation_class hc).2.2.2
  | eof h =>
    rw [h]
    rfl

theorem Scans.type_ne (h : Scans rest word token) :
    token.type = .JSON_TOKEN_STRING ∨ token.type = .JSON_TOKEN_NUMBER ∨
      token.type = .JSON_TOKEN_BOOLEAN ∨ token.type = .JSON_TOKEN_NULL ∨
      token.type = .JSON_TOKEN_OBJECT_START ∨ token.type = .JSON_TOKEN_OBJECT_END ∨
      token.type = .JSON_TOKEN_ARRAY_START ∨ token.type = .JSON_TOKEN_ARRAY_END ∨
      token.type = .JSON_TOKEN_COLON ∨ token.type = .JSON_TOKEN_COMMA ∨
      token.type = .JSON_TOKEN_EOF := by
  cases h with
  | string => exact .inl rfl
  | number => exact .inr (.inl rfl)
  | boolean => simp [makeJsonToken]
  | null => simp [makeJsonToken]
  | punctuation hc h =>
    unfold JsonParser.punctuation at h
    split_ifs at h <;> cases h <;> simp [makeJsonToken]
  | eof => simp [makeJsonToken]

/-- None of these tokens is an error or a comment. -/
theorem Scans.jsonValidateToken (h : Scans rest word token) (p : JsonParser) :
    p.jsonValidateToken token = p := by
  unfold JsonParser.jsonValidateToken
  rcases h.type_ne with h | h | h | h | h | h | h | h | h | h | h <;> rw [h]

theorem Scans.scanToken (h : Scans rest word token) {fuel : ℕ} (hat : p.tokenizer.At (word ++ rest))
    (hversion : p.version = 0) (hfuel : word.length < fuel) :
    ∃ t', scanToken fuel p (peek (word ++ rest)) = .ok (token, { p with tokenizer := t' }) ∧
      t'.At rest := by
  have hv1 : ¬JSON_PARSE_VERSION_2 ≤ p.version := by
    rw [hversion]
    decide
  unfold JsonParser.scanToken
  cases h with
  | @string body s hdecodes hroom =>
    have hat' : p.tokenizer.At (0x22 :: body ++ 0x22 :: rest) := by simpa using hat
    have hlt : body.length < fuel := by
      rw [List.length_append, List.length_cons] at hfuel
      omega
    obtain ⟨t', hrun, h'⟩ := hat'.getStringToken hdecodes hroom hlt
    refine ⟨t', ?_, h'⟩
    have hpeek : peek (0x22 :: body ++ [0x22] ++ rest) = 0x22 := rfl
    rw [hpeek]
    dsimp only
    rw [if_pos rfl, hrun]
    rfl
  | number hroom hrest =>
    obtain ⟨hquote, hclass, -⟩ := formatD_class _ rest
    obtain ⟨t', hrun, h'⟩ := hat.getNumberTokenV1 hrest hroom hfuel
    refine ⟨t', ?_, h'⟩
    dsimp only
    rw [if_neg hquote, if_pos hclass, if_neg hv1, hrun]
    rfl
  | boolean b hrest =>
    have hword : ∀ c ∈ (if b then ascii "true" else ascii "false"), isalpha c.toInt = true := by
      cases b <;> decide
    have htype : ((if b then ascii "true" else ascii "false") = ascii "true" ∨
        (if b then ascii "true" else ascii "false") = ascii "false") := by
      cases b
      · exact .inr rfl
      · exact .inl rfl
    have hroom : (if b then ascii "true" else ascii "false").length ≤ JSON_TOKEN_BUFFER_SIZE := by
      cases b <;> decide
    obtain ⟨t', hrun, h'⟩ := At.getReservedWordToken hword hat hrest hroom hfuel (.inl ⟨htype, rfl⟩)
    refine ⟨t', ?_, h'⟩
    have hpeek : peek ((if b then ascii "true" else ascii "false") ++ rest) =
        if b then 0x74 else 0x66 := by
      cases b <;> rfl
    have hquote : (if b then 0x74 else 0x66) ≠ (0x22 : ℤ) := by cases b <;> decide
    have hdigit : ¬(isdigit (if b then 0x74 else 0x66) ||
        decide ((if b then 0x74 else 0x66) = (0x2D : ℤ))) = true := by cases b <;> decide
    have halpha : isalpha (if b then 0x74 else 0x66) = true := by cases b <;> decide
    rw [hpeek]
    dsimp only
    rw [if_neg hquote, if_neg hdigit, if_pos halpha, hrun]
    rfl
  | null hrest =>
    obtain ⟨t', hrun, h'⟩ := At.getReservedWordToken (by decide) hat hrest (by decide) hfuel
      (.inr ⟨rfl, rfl⟩)
    refine ⟨t', ?_, h'⟩
    have hpeek : peek (ascii "null" ++ rest) = 0x6E := rfl
    rw [hpeek]
    dsimp only
    rw [if_neg (by decide), if_neg (by decide), if_pos (by decide), hrun]
    rfl
  | @punctuation c _ hc h =>
    obtain ⟨t', hrun, h'⟩ := hat.jsonTokenizerRead
    refine ⟨t', ?_, h'⟩
    obtain ⟨hquote, hdigit, halpha, -⟩ := punctuation_class hc
    have hpeek : peek ([c] ++ rest) = c.toInt := rfl
    rw [hpeek]
    dsimp only
    rw [if_neg hquote, if_neg (by rw [hdigit]; exact Bool.false_ne_true),
      if_neg (by rw [halpha]; exact Bool.false_ne_true), h, hrun]
    rfl
  | eof hrest =>
    obtain ⟨t', hrun, h'⟩ := hat.jsonTokenizerRead
    subst hrest
    refine ⟨t', ?_, h'⟩
    have hpeek : peek ([] ++ []) = EOF := rfl
    have hpunctuation : JsonParser.punctuation EOF = none := by decide
    rw [hpeek]
    dsimp only
    rw [if_neg (by decide), if_neg (by decide), if_neg (by decide), hpunctuation]
    dsimp only
    rw [if_neg (by decide), if_pos rfl, hrun]
    rfl

/-- The parser stands before a text and has not looked at its first token. -/
structure Fresh (p : JsonParser) (text : List Byte) : Prop where
  unreadToken : p.unreadToken = none
  version : p.version = 0
  tokenizer : p.tokenizer.At text

theorem Fresh.jsonNextToken {space : List Byte} {fuel : ℕ} (h : p.Fresh (space ++ (word ++ rest)))
    (hspace : ∀ c ∈ space, isspace c.toInt = true) (hscans : Scans rest word token)
    (hfuel : space.length + word.length < fuel) :
    ∃ p', p.jsonNextToken (fuel + 1) = .ok (token, p') ∧ p'.Fresh rest := by
  obtain ⟨tokenizer, unreadToken, jsonError, version⟩ := p
  obtain ⟨hunread, hversion, hat⟩ := h
  dsimp only at hunread hversion hat
  subst hunread
  obtain ⟨t₁, hrun₁, h₁⟩ := At.jsonTokenizerSkipWhitespace hspace hscans.not_isspace fuel hat (by omega)
  obtain ⟨t₂, hrun₂, h₂⟩ := h₁.jsonTokenizerLookahead
  have h₃ : At { t₂ with
      lastTokenLineNumber := t₂.lineNumber
      lastTokenColumnNumber := t₂.columnNumber } (word ++ rest) := ⟨h₂.noNul, h₂.input⟩
  obtain ⟨t', hrun', h'⟩ := hscans.scanToken (p := ⟨_, none, jsonError, version⟩) h₃ hversion
    (show word.length < fuel by omega)
  refine ⟨⟨t', none, jsonError, version⟩, ?_, rfl, hversion, h'⟩
  have hcomment : ¬(token.type = .JSON_TOKEN_LINE_COMMENT ∨
      token.type = .JSON_TOKEN_BLOCK_COMMENT) := by
    rcases hscans.type_ne with h | h | h | h | h | h | h | h | h | h | h <;> rw [h] <;> decide
  unfold JsonParser.jsonNextToken
  dsimp only
  rw [hrun₁, Exec.ok_bind, hrun₂]
  dsimp only
  rw [hrun', Exec.ok_bind]
  dsimp only
  rw [if_neg hcomment, hscans.jsonValidateToken]
  rfl

/-- The next token of the parser is known, and what comes after it. -/
inductive Ready (n : ℕ) (p : JsonParser) (token : JsonToken) (rest : List Byte) : Prop
  | unseen {space word : List Byte} (h : p.Fresh (space ++ (word ++ rest)))
      (hspace : ∀ c ∈ space, isspace c.toInt = true) (hscans : Scans rest word token)
      (hn : space.length + word.length ≤ n)
  | seen (hunread : p.unreadToken = some token) (hversion : p.version = 0)
      (hat : p.tokenizer.At rest)

variable {n fuel : ℕ}

theorem Ready.jsonNextToken (h : Ready n p token rest) (hfuel : n + 1 < fuel) :
    ∃ p', p.jsonNextToken fuel = .ok (token, p') ∧ p'.Fresh rest := by
  obtain ⟨fuel, rfl⟩ : ∃ m, fuel = m + 1 := Nat.exists_eq_succ_of_ne_zero (by omega)
  cases h with
  | unseen h hspace hscans hn => exact h.jsonNextToken hspace hscans (by omega)
  | seen hunread hversion hat =>
    refine ⟨{ p with unreadToken := none }, ?_, rfl, hversion, hat⟩
    unfold JsonParser.jsonNextToken
    rw [hunread]
    rfl

theorem Ready.jsonLookaheadToken (h : Ready n p token rest) (hfuel : n + 1 < fuel) :
    ∃ p', p.jsonLookaheadToken fuel = .ok (token, p') ∧ ∀ m, Ready m p' token rest := by
  obtain ⟨p', hrun, h'⟩ := h.jsonNextToken hfuel
  unfold JsonParser.jsonLookaheadToken
  cases h with
  | unseen h _ _ _ =>
    refine ⟨{ p' with unreadToken := some token }, ?_, fun m => .seen rfl h'.version h'.tokenizer⟩
    rw [h.unreadToken]
    dsimp only
    rw [hrun]
    rfl
  | seen hunread hversion hat =>
    refine ⟨p, ?_, fun m => .seen hunread hversion hat⟩
    rw [hunread]
    rfl

theorem Ready.jsonMatchToken (h : Ready n p token rest) (hfuel : n + 1 < fuel) {type : JsonTokenType}
    (htype : token.type = type) :
    ∃ p', p.jsonMatchToken fuel type = .ok (token, p') ∧ p'.Fresh rest := by
  obtain ⟨p', hrun, h'⟩ := h.jsonNextToken hfuel
  refine ⟨p', ?_, h'⟩
  unfold JsonParser.jsonMatchToken
  rw [hrun, Exec.ok_bind]
  dsimp only
  rw [if_neg (not_not_intro htype)]
  rfl

end JsonParser
end ZoweCommon
