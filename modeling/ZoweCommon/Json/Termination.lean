import ZoweCommon.Json.ParserNumbers

/-! The parser comes to an end on every text. -/
namespace ZoweCommon

open CLibrary CString

/-- A token that characters were passed for. -/
def JsonToken.Solid (token : JsonToken) : Prop :=
  token.type ≠ .JSON_TOKEN_EOF ∧ token.type ≠ .JSON_TOKEN_UNEXPECTED_CHAR

namespace JsonTokenizer

/-- What is left to be read; a character that was looked at counts half. -/
def remaining (t : JsonTokenizer) : ℕ :=
  2 * t.input.length + if t.unreadChar = 0 ∨ t.unreadChar = EOF ∧ t.input = [] then 0 else 1

theorem unreadChar_lookahead (t : JsonTokenizer) :
    t.jsonTokenizerLookahead.2.unreadChar = t.jsonTokenizerLookahead.1 := by
  unfold jsonTokenizerLookahead
  split_ifs <;> rfl

/-- What reading from the stream does, the line and the column apart. -/
theorem read_stream {t : JsonTokenizer} (h : t.unreadChar = 0) :
    (t.input = [] ∧ t.jsonTokenizerRead.1 = EOF ∧ t.jsonTokenizerRead.2.input = [] ∧
      t.jsonTokenizerRead.2.unreadChar = 0) ∨
    ∃ b input, t.input = b :: input ∧ t.jsonTokenizerRead.1 = b.toInt ∧
      t.jsonTokenizerRead.2.input = input ∧ t.jsonTokenizerRead.2.unreadChar = 0 := by
  unfold jsonTokenizerRead charStreamGet
  rw [if_neg (not_not.mpr h)]
  cases hinput : t.input with
  | nil =>
    left
    exact ⟨rfl, rfl, hinput, h⟩
  | cons b input =>
    right
    refine ⟨b, input, rfl, ?_⟩
    dsimp only
    split_ifs with hline
    · exact ⟨rfl, rfl, h⟩
    · exact ⟨rfl, rfl, h⟩

theorem remaining_read_le (t : JsonTokenizer) : t.jsonTokenizerRead.2.remaining ≤ t.remaining := by
  by_cases h : t.unreadChar = 0
  · unfold remaining
    rcases read_stream h with ⟨hnil, -, hinput, hunread⟩ | ⟨b, input, hcons, -, hinput, hunread⟩
    · rw [hinput, hunread, hnil, if_pos (Or.inl rfl)]
      omega
    · rw [hinput, hunread, hcons, if_pos (Or.inl rfl), List.length_cons]
      omega
  · have hread : t.jsonTokenizerRead = (t.unreadChar, { t with unreadChar := 0 }) := if_pos h
    unfold remaining
    rw [hread, if_pos (Or.inl rfl)]
    dsimp only
    omega

/-- Whatever is read but the end is passed. -/
theorem remaining_read_lt {t : JsonTokenizer} (h : t.jsonTokenizerRead.1 ≠ EOF) :
    t.jsonTokenizerRead.2.remaining < t.remaining := by
  by_cases hunread : t.unreadChar = 0
  · unfold remaining
    rcases read_stream hunread with ⟨-, heof, -, -⟩ | ⟨b, input, hcons, -, hinput, hunread'⟩
    · exact absurd heof h
    · rw [hinput, hunread', hcons, if_pos (Or.inl rfl), List.length_cons]
      omega
  · have hread : t.jsonTokenizerRead = (t.unreadChar, { t with unreadChar := 0 }) := if_pos hunread
    rw [hread] at h ⊢
    unfold remaining
    dsimp only at h ⊢
    rw [if_pos (Or.inl rfl), if_neg (by simp [hunread, h])]
    omega

theorem read_of_unread {t : JsonTokenizer} (h : t.unreadChar ≠ 0) :
    t.jsonTokenizerRead.1 = t.unreadChar := by
  unfold jsonTokenizerRead
  rw [if_pos h]

theorem lookahead_eq_read (t : JsonTokenizer) :
    t.jsonTokenizerLookahead.1 = t.jsonTokenizerRead.1 := by
  unfold jsonTokenizerLookahead
  split_ifs with h
  · exact (read_of_unread h).symm
  · rfl

theorem lookahead_of_unread {t : JsonTokenizer} (h : t.unreadChar ≠ 0) :
    t.jsonTokenizerLookahead.1 = t.unreadChar := by
  unfold jsonTokenizerLookahead
  rw [if_pos h]

theorem remaining_lookahead (t : JsonTokenizer) : t.jsonTokenizerLookahead.2.remaining ≤ t.remaining ∧
    (t.jsonTokenizerLookahead.1 = 0 → t.jsonTokenizerLookahead.2.remaining < t.remaining) := by
  by_cases h : t.unreadChar = 0
  · have hlook : t.jsonTokenizerLookahead =
        (t.jsonTokenizerRead.1, { t.jsonTokenizerRead.2 with unreadChar := t.jsonTokenizerRead.1 }) :=
      if_neg (not_not.mpr h)
    rw [hlook]
    unfold remaining
    dsimp only
    rcases read_stream h with ⟨hnil, hread, hinput, -⟩ | ⟨b, input, hcons, hread, hinput, -⟩
    · rw [hinput, hread, hnil, if_pos (Or.inr ⟨rfl, rfl⟩)]
      exact ⟨by omega, fun hzero => absurd hzero (by decide)⟩
    · rw [hinput, hread, hcons, List.length_cons]
      constructor
      · split_ifs <;> omega
      · intro hzero
        rw [if_pos (Or.inl hzero)]
        omega
  · have hlook : t.jsonTokenizerLookahead = (t.unreadChar, t) := if_pos h
    rw [hlook]
    exact ⟨le_refl _, fun hzero => absurd hzero h⟩

/-- Whatever comes next but the end is passed when it is read. -/
theorem remaining_read_lookahead {t : JsonTokenizer} (h : t.jsonTokenizerLookahead.1 ≠ EOF) :
    t.jsonTokenizerLookahead.2.jsonTokenizerRead.2.remaining < t.remaining := by
  have hunread := t.unreadChar_lookahead
  obtain ⟨hle, hlt⟩ := t.remaining_lookahead
  by_cases hzero : t.jsonTokenizerLookahead.1 = 0
  · exact (remaining_read_le _).trans_lt (hlt hzero)
  · have hread := read_of_unread (hunread ▸ hzero)
    exact (remaining_read_lt (by rwa [hread, hunread])).trans_le hle

theorem ends_jsonTokenizerSkipWhitespace (fuel : ℕ) {t : JsonTokenizer} (h : t.remaining < fuel) :
    (t.jsonTokenizerSkipWhitespace fuel).EndsWith fun t' => t'.remaining ≤ t.remaining := by
  induction fuel generalizing t with
  | zero => exact absurd h (Nat.not_lt_zero _)
  | succ fuel ih =>
    rw [jsonTokenizerSkipWhitespace]
    dsimp only
    split_ifs with hspace
    · have hlt := remaining_read_lookahead (t := t) (by
        intro heof
        rw [heof] at hspace
        exact absurd hspace (by decide))
      exact (ih (by omega)).mono fun t' ht' => by omega
    · exact .ok t.remaining_lookahead.1

theorem ends_readWhile {class_ : ℤ → Bool} (hclass : class_ EOF = false) (fuel : ℕ)
    {t : JsonTokenizer} (buffer : List Byte) (h : t.remaining < fuel) :
    (t.readWhile class_ fuel buffer).EndsWith fun r => r.2.remaining ≤ t.remaining ∧
      (class_ t.jsonTokenizerLookahead.1 = true → r.2.remaining < t.remaining) := by
  induction fuel generalizing t buffer with
  | zero => exact absurd h (Nat.not_lt_zero _)
  | succ fuel ih =>
    rw [readWhile]
    dsimp only
    split_ifs with hnext
    · have hlt := remaining_read_lookahead (t := t) (by
        intro heof
        rw [heof, hclass] at hnext
        exact Bool.false_ne_true hnext)
      exact (ih _ (by omega)).mono fun r hr => by omega
    · exact .ok ⟨t.remaining_lookahead.1, fun hclass => absurd hclass hnext⟩

theorem remaining_ensureRoom {t t' : JsonTokenizer} {pos : ℕ} (h : t.ensureRoom pos = some t') :
    t'.remaining = t.remaining := by
  unfold ensureRoom jsonTokenizerGrowBuffer at h
  split_ifs at h <;> cases h <;> rfl

theorem ends_getStringTokenFrom (fuel : ℕ) {t : JsonTokenizer} (buffer : List Byte)
    (h : t.remaining < fuel) :
    (t.getStringTokenFrom fuel buffer).EndsWith fun r =>
      r.2.remaining ≤ t.remaining ∧ r.1.Solid := by
  induction fuel generalizing t buffer with
  | zero => exact absurd h (Nat.not_lt_zero _)
  | succ fuel ih =>
    have hlook := t.remaining_lookahead.1
    rw [getStringTokenFrom]
    dsimp only
    by_cases hend : t.jsonTokenizerLookahead.1 = EOF ∨ t.jsonTokenizerLookahead.1 = 0x0A
    · rw [if_pos hend]
      exact .ok ⟨hlook, nofun, nofun⟩
    · have hlt := remaining_read_lookahead (fun heof => hend (Or.inl heof))
      rw [if_neg hend]
      by_cases hquote : t.jsonTokenizerLookahead.1 = 0x22
      · rw [if_pos hquote]
        exact .ok ⟨hlt.le, nofun, nofun⟩
      · rw [if_neg hquote]
        by_cases hslash : t.jsonTokenizerLookahead.1 = 0x5C
        · have hnext := remaining_read_le t.jsonTokenizerLookahead.2.jsonTokenizerRead.2
          rw [if_pos hslash]
          match hroom : ensureRoom _ buffer.length with
          | none => exact .ok ⟨hnext.trans hlt.le, nofun, nofun⟩
          | some t' =>
            have hsame := remaining_ensureRoom hroom
            exact (ih _ (by omega)).mono fun r hr => ⟨by omega, hr.2⟩
        · rw [if_neg hslash]
          by_cases hprint : isprint t.jsonTokenizerLookahead.2.jsonTokenizerRead.1
          · rw [if_pos hprint]
            match hroom : ensureRoom _ buffer.length with
            | none => exact .ok ⟨hlt.le, nofun, nofun⟩
            | some t' =>
              have hsame := remaining_ensureRoom hroom
              exact (ih _ (by omega)).mono fun r hr => ⟨by omega, hr.2⟩
          · rw [if_neg hprint]
            exact (ih _ (by omega)).mono fun r hr => ⟨by omega, hr.2⟩

theorem ends_getBlockCommentTokenFrom (fuel : ℕ) {t : JsonTokenizer} (buffer : List Byte) (c : ℤ)
    (h : t.remaining + 1 < fuel) :
    (t.getBlockCommentTokenFrom fuel buffer c).EndsWith fun r =>
      r.2.remaining ≤ t.remaining ∧ r.1.Solid := by
  induction fuel generalizing t buffer c with
  | zero => exact absurd h (Nat.not_lt_zero _)
  | succ fuel ih =>
    rw [getBlockCommentTokenFrom]
    by_cases hc : c = EOF
    · rw [if_pos hc]
      exact .ok ⟨le_refl _, nofun, nofun⟩
    · rw [if_neg hc]
      have hlook : (if c = 0x2A then t.jsonTokenizerLookahead else (0, t)).2.remaining ≤
          t.remaining := by
        split_ifs
        · exact t.remaining_lookahead.1
        · exact le_refl _
      generalize (if c = 0x2A then t.jsonTokenizerLookahead else (0, t)) = next at hlook
      obtain ⟨slash, t₁⟩ := next
      have hread := remaining_read_le t₁
      dsimp only at hlook ⊢
      split_ifs with hslash
      · exact .ok ⟨hread.trans hlook, nofun, nofun⟩
      · by_cases heof : t₁.jsonTokenizerRead.1 = EOF
        · obtain ⟨fuel, rfl⟩ : ∃ m, fuel = m + 1 := Nat.exists_eq_succ_of_ne_zero (by omega)
          rw [getBlockCommentTokenFrom, if_pos heof]
          exact .ok ⟨hread.trans hlook, nofun, nofun⟩
        · have hlt := remaining_read_lt heof
          exact (ih _ _ (by omega)).mono fun r hr => ⟨by omega, hr.2⟩

/-! The tokens, from a character that was looked at -/

section tokens

variable {t : JsonTokenizer} {fuel : ℕ}

/-- A character at least is passed. -/
def Passes (t : JsonTokenizer) (r : JsonToken × JsonTokenizer) : Prop :=
  r.2.remaining < t.remaining ∧ r.1.Solid

theorem ends_getStringToken (hread : t.jsonTokenizerRead.1 ≠ EOF) (h : t.remaining < fuel) :
    (t.getStringToken fuel).EndsWith t.Passes := by
  have hlt := remaining_read_lt hread
  exact (ends_getStringTokenFrom fuel [] (by omega)).mono fun r hr => ⟨by omega, hr.2⟩

theorem ends_getReservedWordToken (halpha : isalpha t.jsonTokenizerLookahead.1 = true)
    (h : t.remaining < fuel) : (t.getReservedWordToken fuel).EndsWith t.Passes := by
  unfold getReservedWordToken
  refine (ends_readWhile (by decide) fuel [] h).bind ?_
  rintro ⟨buffer, t'⟩ ⟨-, hlt⟩
  dsimp only
  split_ifs <;> exact .ok ⟨hlt halpha, nofun, nofun⟩

theorem ends_getCommentToken (hread : t.jsonTokenizerRead.1 ≠ EOF) (h : t.remaining + 1 < fuel) :
    (t.getCommentToken fuel).EndsWith t.Passes := by
  have hslash := remaining_read_lt hread
  have hlook := remaining_lookahead t.jsonTokenizerRead.2
  have hnext := remaining_read_le t.jsonTokenizerRead.2.jsonTokenizerLookahead.2
  unfold getCommentToken
  dsimp only
  by_cases hline : t.jsonTokenizerRead.2.jsonTokenizerLookahead.1 = 0x2F
  · rw [if_pos hline]
    unfold getLineCommentToken
    dsimp only
    refine (ends_readWhile (by decide) fuel [] (by omega)).bind ?_
    rintro ⟨buffer, t'⟩ ⟨hle, -⟩
    dsimp only at hle ⊢
    exact .ok ⟨by dsimp only; omega, nofun, nofun⟩
  · rw [if_neg hline]
    by_cases hblock : t.jsonTokenizerRead.2.jsonTokenizerLookahead.1 = 0x2A
    · have hfirst := remaining_read_le
        t.jsonTokenizerRead.2.jsonTokenizerLookahead.2.jsonTokenizerRead.2
      have hends := ends_getBlockCommentTokenFrom fuel (t :=
        t.jsonTokenizerRead.2.jsonTokenizerLookahead.2.jsonTokenizerRead.2.jsonTokenizerRead.2) []
        t.jsonTokenizerRead.2.jsonTokenizerLookahead.2.jsonTokenizerRead.2.jsonTokenizerRead.1
        (by omega)
      rw [if_pos hblock]
      exact hends.mono fun r hr => ⟨by omega, hr.2⟩
    · rw [if_neg hblock]
      exact .ok ⟨by dsimp only; omega, nofun, nofun⟩

theorem readSign_passes (hread : t.jsonTokenizerRead.1 ≠ EOF) :
    t.readSign.2.jsonTokenizerLookahead.2.jsonTokenizerRead.2.remaining < t.remaining := by
  have heof : t.jsonTokenizerLookahead.1 ≠ EOF := by rwa [lookahead_eq_read]
  have hunread := t.unreadChar_lookahead
  obtain ⟨hle, hzero⟩ := t.remaining_lookahead
  have hlook := remaining_lookahead t.readSign.2
  have hnext := remaining_read_le t.readSign.2.jsonTokenizerLookahead.2
  by_cases hsign : t.jsonTokenizerLookahead.1 = 0x2D
  · have hreadSign : t.readSign.2 = t.jsonTokenizerLookahead.2.jsonTokenizerRead.2 := by
      unfold readSign
      dsimp only
      rw [if_pos hsign]
    have hlt := remaining_read_lookahead heof
    rw [hreadSign] at hlook hnext ⊢
    omega
  · have hreadSign : t.readSign.2 = t.jsonTokenizerLookahead.2 := by
      unfold readSign
      dsimp only
      rw [if_neg hsign]
    rw [hreadSign] at hlook hnext ⊢
    by_cases hnul : t.jsonTokenizerLookahead.1 = 0
    · have hlt := hzero hnul
      omega
    · have hagain : t.jsonTokenizerLookahead.2.jsonTokenizerLookahead.1 ≠ EOF := by
        rwa [lookahead_of_unread (by rwa [hunread]), hunread]
      have hlt := remaining_read_lookahead hagain
      omega

theorem ends_getNumberTokenV1 (hread : t.jsonTokenizerRead.1 ≠ EOF) (h : t.remaining < fuel) :
    (t.getNumberTokenV1 fuel).EndsWith t.Passes := by
  have hlt := readSign_passes hread
  unfold getNumberTokenV1
  dsimp only
  split_ifs with hdigit
  · refine (ends_readWhile (by decide) fuel _ (by omega)).bind ?_
    rintro ⟨buffer, t'⟩ ⟨hle, -⟩
    dsimp only at hle ⊢
    exact .ok ⟨by dsimp only; omega, nofun, nofun⟩
  · exact .ok ⟨hlt, nofun, nofun⟩

theorem ends_getNumberTokenV2 (hread : t.jsonTokenizerRead.1 ≠ EOF) (h : t.remaining < fuel) :
    (t.getNumberTokenV2 fuel).EndsWith t.Passes := by
  have hlt := readSign_passes hread
  unfold getNumberTokenV2
  dsimp only
  split_ifs with hdigit
  · refine (ends_readWhile (by decide) fuel _ (by omega)).bind ?_
    rintro ⟨buffer, t'⟩ ⟨hle, -⟩
    have hlook := remaining_lookahead t'
    have hpoint := remaining_read_le t'.jsonTokenizerLookahead.2
    have hplace := remaining_lookahead t'.jsonTokenizerLookahead.2.jsonTokenizerRead.2
    dsimp only at hle ⊢
    split_ifs
    · refine (ends_readWhile (by decide) fuel _ (by omega)).bind ?_
      rintro ⟨places, t''⟩ ⟨hle', -⟩
      dsimp only at hle' ⊢
      exact .ok ⟨by dsimp only; omega, nofun, nofun⟩
    · exact .ok ⟨by dsimp only; omega, nofun, nofun⟩
    · exact .ok ⟨by dsimp only; omega, nofun, nofun⟩
  · exact .ok ⟨hlt, nofun, nofun⟩

end tokens

end JsonTokenizer

namespace JsonParser

open JsonTokenizer

/-- A token that was looked at is left to be read, if it passed something. -/
def weight (token : JsonToken) : ℕ :=
  if token.type = .JSON_TOKEN_EOF ∨ token.type = .JSON_TOKEN_UNEXPECTED_CHAR then 0 else 1

theorem weight_solid {token : JsonToken} (h : token.Solid) : weight token = 1 :=
  if_neg (not_or.mpr h)

def remaining (p : JsonParser) : ℕ :=
  p.tokenizer.remaining + match p.unreadToken with
    | none => 0
    | some token => weight token

@[simp] theorem remaining_jsonParseFail (p : JsonParser) (message : List Byte) :
    (p.jsonParseFail message).remaining = p.remaining := by
  unfold jsonParseFail
  split_ifs <;> rfl

@[simp] theorem unreadToken_jsonParseFail (p : JsonParser) (message : List Byte) :
    (p.jsonParseFail message).unreadToken = p.unreadToken := by
  unfold jsonParseFail
  split_ifs <;> rfl

theorem jsonValidateToken_same (p : JsonParser) (token : JsonToken) :
    (p.jsonValidateToken token).remaining = p.remaining ∧
      (p.jsonValidateToken token).unreadToken = p.unreadToken := by
  unfold jsonValidateToken
  split <;> simp

def Takes (p : JsonParser) (r : JsonToken × JsonParser) : Prop :=
  r.2.remaining + weight r.1 ≤ p.remaining ∧ r.2.unreadToken = none

variable {p : JsonParser} {fuel : ℕ}

theorem punctuation_solid {c : ℤ} {token : JsonToken} (h : punctuation c = some token) :
    token.Solid := by
  unfold punctuation at h
  split_ifs at h <;> cases h <;> exact ⟨nofun, nofun⟩

theorem Takes.of_passes {t : JsonTokenizer} {token : JsonToken} (hunread : p.unreadToken = none)
    (h : p.tokenizer.Passes (token, t)) : p.Takes (token, { p with tokenizer := t }) := by
  obtain ⟨hlt, hsolid⟩ := h
  refine ⟨?_, hunread⟩
  unfold remaining
  dsimp only at hlt ⊢
  rw [hunread, weight_solid hsolid]
  dsimp only
  omega

theorem Takes.of_nothing {p' : JsonParser} {token : JsonToken} (hweight : weight token = 0)
    (hunread : p'.unreadToken = none) (hle : p'.remaining ≤ p.remaining) : p.Takes (token, p') :=
  ⟨by dsimp only; omega, hunread⟩

theorem remaining_of_none (h : p.unreadToken = none) : p.remaining = p.tokenizer.remaining := by
  unfold remaining
  rw [h]
  rfl

theorem ends_scan (hnone : p.unreadToken = none) {scan : Exec (JsonToken × JsonTokenizer)}
    (hscan : scan.EndsWith p.tokenizer.Passes) :
    (do let (token, tokenizer) ← scan
        return (token, { p with tokenizer := tokenizer }) : Exec (JsonToken × JsonParser)).EndsWith
      p.Takes :=
  hscan.bind fun _ hr => .ok (Takes.of_passes hnone hr)

theorem ends_scanToken {lookahead : ℤ} (hnone : p.unreadToken = none)
    (hunread : p.tokenizer.unreadChar = lookahead) (h : p.remaining + 1 < fuel) :
    (scanToken fuel p lookahead).EndsWith p.Takes := by
  rw [remaining_of_none hnone] at h
  have hread (hzero : lookahead ≠ 0) : p.tokenizer.jsonTokenizerRead.1 = lookahead := by
    rw [read_of_unread (by rwa [hunread]), hunread]
  unfold scanToken
  dsimp only
  by_cases hquote : lookahead = 0x22
  · have hchar : p.tokenizer.jsonTokenizerRead.1 ≠ EOF := by
      rw [hread (by omega), hquote]
      decide
    rw [if_pos hquote]
    exact ends_scan hnone (ends_getStringToken hchar (by omega))
  rw [if_neg hquote]
  by_cases hnumber : (isdigit lookahead || decide (lookahead = 0x2D)) = true
  · have hne : lookahead ≠ 0 ∧ lookahead ≠ EOF := by
      constructor <;> rintro rfl <;> exact absurd hnumber (by decide)
    have hchar : p.tokenizer.jsonTokenizerRead.1 ≠ EOF := by rw [hread hne.1]; exact hne.2
    rw [if_pos hnumber]
    split_ifs
    · exact ends_scan hnone (ends_getNumberTokenV2 hchar (by omega))
    · exact ends_scan hnone (ends_getNumberTokenV1 hchar (by omega))
  rw [if_neg hnumber]
  by_cases halpha : isalpha lookahead = true
  · have hne : lookahead ≠ 0 := by
      rintro rfl
      exact absurd halpha (by decide)
    rw [if_pos halpha]
    exact ends_scan hnone (ends_getReservedWordToken (by rwa [lookahead_eq_read, hread hne]) (by omega))
  rw [if_neg halpha]
  cases hpunctuation : punctuation lookahead with
  | some token =>
    have hne : lookahead ≠ 0 ∧ lookahead ≠ EOF := by
      have hzero : punctuation 0 = none := by decide
      have heof : punctuation EOF = none := by decide
      constructor <;> rintro rfl
      · exact Option.some_ne_none token (hpunctuation.symm.trans hzero)
      · exact Option.some_ne_none token (hpunctuation.symm.trans heof)
    have hlt := remaining_read_lt (t := p.tokenizer) (by rw [hread hne.1]; exact hne.2)
    exact .ok (Takes.of_passes hnone ⟨hlt, punctuation_solid hpunctuation⟩)
  | none =>
    dsimp only
    by_cases hslash : lookahead = 0x2F
    · have hchar : p.tokenizer.jsonTokenizerRead.1 ≠ EOF := by
        rw [hread (by omega), hslash]
        decide
      rw [if_pos hslash]
      exact ends_scan hnone (ends_getCommentToken hchar (by omega))
    rw [if_neg hslash]
    by_cases heof : lookahead = EOF
    · rw [if_pos heof]
      refine Exec.EndsWith.ok (Takes.of_nothing rfl hnone ?_)
      have hle := remaining_read_le p.tokenizer
      rw [remaining_of_none hnone, remaining_of_none]
      · exact hle
      · exact hnone
    · rw [if_neg heof]
      refine Exec.EndsWith.ok (Takes.of_nothing rfl ?_ ?_)
      · rwa [unreadToken_jsonParseFail]
      · rw [remaining_jsonParseFail]

/-- The comments before a token take something too. -/
theorem ends_jsonNextToken (fuel : ℕ) {p : JsonParser} (h : p.remaining + 2 < fuel) :
    (p.jsonNextToken fuel).EndsWith p.Takes := by
  induction fuel generalizing p with
  | zero => exact absurd h (Nat.not_lt_zero _)
  | succ fuel ih =>
    rw [jsonNextToken]
    cases hnone : p.unreadToken with
    | some token =>
      refine .ok ⟨?_, rfl⟩
      unfold remaining
      rw [hnone]
      exact le_refl _
    | none =>
      have hremaining := remaining_of_none hnone
      refine (ends_jsonTokenizerSkipWhitespace fuel (by omega)).bind ?_
      intro t ht
      have hlook := t.remaining_lookahead.1
      dsimp only
      let p₁ : JsonParser := { p with
        tokenizer := { t.jsonTokenizerLookahead.2 with
          lastTokenLineNumber := t.jsonTokenizerLookahead.2.lineNumber
          lastTokenColumnNumber := t.jsonTokenizerLookahead.2.columnNumber }
        unreadToken := none }
      have hp : p₁.remaining = t.jsonTokenizerLookahead.2.remaining := remaining_of_none rfl
      have hscan : (scanToken fuel p₁ t.jsonTokenizerLookahead.1).EndsWith p₁.Takes :=
        ends_scanToken rfl t.unreadChar_lookahead (by omega)
      refine hscan.bind ?_
      rintro ⟨token, p'⟩ ⟨hle, hnone'⟩
      dsimp only at hle hnone' ⊢
      split_ifs with hcomment
      · have hweight : weight token = 1 := by
          apply weight_solid
          rcases hcomment with hline | hblock
          · exact ⟨by rw [hline]; decide, by rw [hline]; decide⟩
          · exact ⟨by rw [hblock]; decide, by rw [hblock]; decide⟩
        refine (ih (p := p') (by omega)).bind ?_
        rintro ⟨token', p''⟩ ⟨hle', hnone''⟩
        obtain ⟨hsame, hsame'⟩ := jsonValidateToken_same p'' token'
        dsimp only at hle' hnone''
        refine .ok ⟨?_, hsame'.trans hnone''⟩
        dsimp only
        omega
      · obtain ⟨hsame, hsame'⟩ := jsonValidateToken_same p' token
        refine .ok ⟨?_, hsame'.trans hnone'⟩
        dsimp only
        omega

theorem ends_jsonLookaheadToken (h : p.remaining + 2 < fuel) :
    (p.jsonLookaheadToken fuel).EndsWith fun r =>
      r.2.remaining ≤ p.remaining ∧ r.2.unreadToken = some r.1 := by
  unfold jsonLookaheadToken
  cases hunread : p.unreadToken with
  | some token => exact .ok ⟨le_refl _, hunread⟩
  | none =>
    refine (ends_jsonNextToken fuel h).bind ?_
    rintro ⟨token, p'⟩ ⟨hle, hnone⟩
    refine .ok ⟨?_, rfl⟩
    rw [remaining_of_none hnone] at hle
    exact hle

theorem ends_jsonMatchToken {type : JsonTokenType}
    (h : p.remaining + 2 < fuel) :
    (p.jsonMatchToken fuel type).EndsWith fun r => r.2.remaining ≤ p.remaining ∧
      r.2.unreadToken = none ∧ (jsonIsTokenUnmatched r.1 = false → r.1.type = type ∧
        r.2.remaining + weight r.1 ≤ p.remaining) := by
  unfold jsonMatchToken
  refine (ends_jsonNextToken fuel h).bind ?_
  rintro ⟨token, p'⟩ ⟨hle, hnone⟩
  dsimp only at hle hnone ⊢
  split_ifs with hne
  · refine .ok ⟨?_, ?_, fun hmatched => absurd hmatched (by simp [jsonIsTokenUnmatched])⟩
    · rw [remaining_jsonParseFail]
      omega
    · rwa [unreadToken_jsonParseFail]
  · exact .ok ⟨by dsimp only; omega, hnone, fun _ => ⟨not_not.mp hne, hle⟩⟩

/-! Values: what is left decides how much fuel is enough. -/

def TakesValue (p : JsonParser) (r : Option Json × JsonParser) : Prop :=
  r.2.remaining ≤ p.remaining ∧ (r.1.isSome = true → r.2.remaining < p.remaining)

theorem ends_jsonGetScalar {type : JsonTokenType} {scalar : CString → Exec JsonScalar}
    (htype : type ≠ .JSON_TOKEN_EOF ∧ type ≠ .JSON_TOKEN_UNEXPECTED_CHAR)
    (hscalar : ∀ text, (scalar text).Ends) (h : p.remaining + 2 < fuel) :
    (p.jsonGetScalar fuel type scalar).EndsWith p.TakesValue := by
  unfold jsonGetScalar
  refine (ends_jsonMatchToken h).bind ?_
  rintro ⟨token, p'⟩ ⟨hle, -, hmatched⟩
  dsimp only at hle hmatched ⊢
  cases hunmatched : jsonIsTokenUnmatched token with
  | true =>
    rw [if_pos rfl]
    exact .ok ⟨hle, fun hnone => absurd hnone Bool.false_ne_true⟩
  | false =>
    obtain ⟨heq, htakes⟩ := hmatched hunmatched
    have hweight : weight token = 1 := weight_solid (by rw [JsonToken.Solid, heq]; exact htype)
    rw [if_neg Bool.false_ne_true]
    refine Exec.EndsWith.bind (q := fun _ => True) ⟨hscalar _, fun _ _ => trivial⟩ ?_
    intro s _
    exact .ok ⟨hle, fun _ => by dsimp only; omega⟩

theorem ends_atoi (text : CString) : (atoi text).Ends := by
  unfold atoi
  exact Exec.Ends.ite (.ok _) Exec.ends_throw

theorem ends_atoiNumber (text : CString) : (atoiNumber text).Ends :=
  (ends_atoi text).seq fun _ => .ok _

/-- A loop takes nothing, or something. -/
def TakesMore {α : Type} (p : JsonParser) (r : α × JsonParser) : Prop := r.2.remaining ≤ p.remaining

theorem ends_openingBracket {type : JsonTokenType}
    (htype : type ≠ .JSON_TOKEN_EOF ∧ type ≠ .JSON_TOKEN_UNEXPECTED_CHAR)
    (h : p.remaining + 2 < fuel) :
    (p.jsonMatchToken fuel type).EndsWith fun r => r.2.remaining ≤ p.remaining ∧
      (jsonIsTokenUnmatched r.1 = false → r.2.remaining < p.remaining) := by
  refine (ends_jsonMatchToken h).mono ?_
  rintro ⟨token, p'⟩ ⟨hle, -, hmatched⟩
  refine ⟨hle, fun hunmatched => ?_⟩
  obtain ⟨heq, htakes⟩ := hmatched hunmatched
  have hweight : weight token = 1 := weight_solid (by rw [JsonToken.Solid, heq]; exact htype)
  dsimp only at htakes ⊢
  omega

theorem ends_closingBracket {p₀ : JsonParser} {type : JsonTokenType} (json : Json)
    (h : p.remaining + 2 < fuel) (hlt : p.remaining < p₀.remaining) :
    (p.jsonMatchToken fuel type >>= fun r => if jsonIsTokenUnmatched r.1 then return (none, r.2)
      else return (some json, r.2) : Exec (Option Json × JsonParser)).EndsWith p₀.TakesValue := by
  refine (ends_jsonMatchToken h).bind ?_
  rintro ⟨token, p'⟩ ⟨hle, -, -⟩
  dsimp only at hle ⊢
  split_ifs
  · exact .ok ⟨by dsimp only; omega, fun hsome => absurd hsome Bool.false_ne_true⟩
  · exact .ok ⟨by dsimp only; omega, fun _ => by dsimp only; omega⟩

/-- Four levels of the recursion take a character at least. -/
theorem ends_values {number : CString → Exec JsonScalar} (hnumber : ∀ text, (number text).Ends)
    (fuel : ℕ) :
    (∀ p : JsonParser, 4 * p.remaining + 6 < fuel → (jsonParseWith number fuel p).EndsWith p.TakesValue) ∧
    (∀ p : JsonParser, 4 * p.remaining + 5 < fuel → (jsonGetObjectWith number fuel p).EndsWith p.TakesValue) ∧
    (∀ (p : JsonParser) (properties : List (CString × Json)), 4 * p.remaining + 7 < fuel →
      (jsonGetPropertiesWith number fuel p properties).EndsWith p.TakesMore) ∧
    (∀ p : JsonParser, 4 * p.remaining + 5 < fuel → (jsonGetArrayWith number fuel p).EndsWith p.TakesValue) ∧
    ∀ (p : JsonParser) (elements : List Json), 4 * p.remaining + 7 < fuel →
      (jsonGetElementsWith number fuel p elements).EndsWith p.TakesMore := by
  induction fuel with
  | zero =>
    refine ⟨?_, ?_, ?_, ?_, ?_⟩
    all_goals
      intros
      omega
  | succ fuel ih =>
    obtain ⟨ihParse, ihObject, ihProperties, ihArray, ihElements⟩ := ih
    refine ⟨?_, ?_, ?_, ?_, ?_⟩
    · intro p h
      rw [jsonParseWith]
      refine (ends_jsonLookaheadToken (by omega)).bind ?_
      rintro ⟨lookahead, p'⟩ ⟨hle, -⟩
      have hwiden {r : Option Json × JsonParser} (hr : p'.TakesValue r) : p.TakesValue r :=
        ⟨hr.1.trans hle, fun hsome => (hr.2 hsome).trans_le hle⟩
      dsimp only at hle ⊢
      have hscalar {type : JsonTokenType} {scalar : CString → Exec JsonScalar}
          (htype : type ≠ .JSON_TOKEN_EOF ∧ type ≠ .JSON_TOKEN_UNEXPECTED_CHAR)
          (hscalar : ∀ text, (scalar text).Ends) :
          (p'.jsonGetScalar fuel type scalar).EndsWith p.TakesValue :=
        (ends_jsonGetScalar htype hscalar (by omega)).mono fun _ => hwiden
      split
      case h_1 => exact hscalar (by decide) hnumber
      case h_2 => exact hscalar (by decide) fun _ => .ok _
      case h_3 => exact hscalar (by decide) fun _ => .ok _
      case h_4 => exact hscalar (by decide) fun _ => .ok _
      case h_5 => exact hscalar (by decide) fun _ => .ok _
      case h_6 => exact hscalar (by decide) fun _ => .ok _
      case h_7 => exact (ihObject p' (by omega)).mono fun _ => hwiden
      case h_8 => exact (ihArray p' (by omega)).mono fun _ => hwiden
      case h_9 =>
        refine .ok ⟨?_, fun hsome => absurd hsome Bool.false_ne_true⟩
        rw [remaining_jsonParseFail]
        exact hle
    · intro p h
      rw [jsonGetObjectWith]
      refine Exec.EndsWith.bind (ends_openingBracket (by decide) (by omega)) ?_
      rintro ⟨token, p₁⟩ ⟨hle, hmatched⟩
      dsimp only at hle hmatched ⊢
      cases hunmatched : jsonIsTokenUnmatched token with
      | true => exact .ok ⟨hle, fun hsome => absurd hsome Bool.false_ne_true⟩
      | false =>
        have hlt := hmatched hunmatched
        refine (ihProperties p₁ [] (by omega)).bind ?_
        rintro ⟨properties, p₂⟩ hmore
        unfold TakesMore at hmore
        dsimp only at hmore
        cases properties with
        | none => exact .ok ⟨hmore.trans hle, fun hsome => absurd hsome Bool.false_ne_true⟩
        | some properties => exact ends_closingBracket _ (by omega) (by omega)
    · intro p properties h
      rw [jsonGetPropertiesWith]
      refine (ends_jsonLookaheadToken (by omega)).bind ?_
      rintro ⟨lookahead, p₁⟩ ⟨hle₁, -⟩
      dsimp only at hle₁ ⊢
      split_ifs with hstring
      · refine (ends_jsonMatchToken (by omega)).bind ?_
        rintro ⟨keyToken, p₂⟩ ⟨hle₂, -, -⟩
        dsimp only at hle₂ ⊢
        refine (ends_jsonMatchToken (by omega)).bind ?_
        rintro ⟨colonToken, p₃⟩ ⟨hle₃, -, -⟩
        dsimp only at hle₃ ⊢
        cases hunmatched : jsonIsTokenUnmatched colonToken with
        | true => exact .ok (by unfold TakesMore; dsimp only; omega)
        | false =>
          refine (ihParse p₃ (by omega)).bind ?_
          rintro ⟨value, p₄⟩ ⟨hle₄, hlt₄⟩
          dsimp only at hle₄ hlt₄
          cases value with
          | none => exact .ok (by unfold TakesMore; dsimp only; omega)
          | some value =>
            have hlt := hlt₄ rfl
            refine (ends_jsonLookaheadToken (by omega)).bind ?_
            rintro ⟨lookahead', p₅⟩ ⟨hle₅, -⟩
            dsimp only at hle₅ ⊢
            split_ifs with hcomma
            · refine (ends_jsonMatchToken (by omega)).bind ?_
              rintro ⟨comma, p₆⟩ ⟨hle₆, -, -⟩
              dsimp only at hle₆ ⊢
              refine (ihProperties p₆ _ (by omega)).mono fun r hr => ?_
              unfold TakesMore at hr ⊢
              omega
            · exact .ok (by unfold TakesMore; dsimp only; omega)
      · exact .ok hle₁
    · intro p h
      rw [jsonGetArrayWith]
      refine Exec.EndsWith.bind (ends_openingBracket (by decide) (by omega)) ?_
      rintro ⟨token, p₁⟩ ⟨hle, hmatched⟩
      dsimp only at hle hmatched ⊢
      cases hunmatched : jsonIsTokenUnmatched token with
      | true => exact .ok ⟨hle, fun hsome => absurd hsome Bool.false_ne_true⟩
      | false =>
        have hlt := hmatched hunmatched
        refine (ihElements p₁ [] (by omega)).bind ?_
        rintro ⟨elements, p₂⟩ hmore
        unfold TakesMore at hmore
        dsimp only at hmore
        cases elements with
        | none => exact .ok ⟨hmore.trans hle, fun hsome => absurd hsome Bool.false_ne_true⟩
        | some elements => exact ends_closingBracket _ (by omega) (by omega)
    · intro p elements h
      rw [jsonGetElementsWith]
      refine (ends_jsonLookaheadToken (by omega)).bind ?_
      rintro ⟨lookahead, p₁⟩ ⟨hle₁, -⟩
      dsimp only at hle₁ ⊢
      split_ifs with hend
      · refine (ihParse p₁ (by omega)).bind ?_
        rintro ⟨element, p₂⟩ ⟨hle₂, hlt₂⟩
        dsimp only at hle₂ hlt₂
        cases element with
        | none => exact .ok (by unfold TakesMore; dsimp only; omega)
        | some element =>
          have hlt := hlt₂ rfl
          refine (ends_jsonLookaheadToken (by omega)).bind ?_
          rintro ⟨lookahead', p₃⟩ ⟨hle₃, -⟩
          dsimp only at hle₃ ⊢
          split_ifs with hcomma
          · refine (ends_jsonMatchToken (by omega)).bind ?_
            rintro ⟨comma, p₄⟩ ⟨hle₄, -, -⟩
            dsimp only at hle₄ ⊢
            refine (ihElements p₄ _ (by omega)).mono fun r hr => ?_
            unfold TakesMore at hr ⊢
            omega
          · exact .ok (by unfold TakesMore; dsimp only; omega)
      · exact .ok hle₁

theorem remaining_makeJsonParser (jsonString : List Byte) :
    (makeJsonParser jsonString).remaining = 2 * jsonString.length := by
  have hunread : (makeJsonParser jsonString).tokenizer.unreadChar = 0 := rfl
  rw [remaining_of_none rfl, JsonTokenizer.remaining, if_pos (Or.inl hunread)]
  rfl

end JsonParser

/-- The parser ends on every text, well-formed or not. -/
theorem ends_jsonParseUnterminatedString {fuel : ℕ} {jsonString : List Byte}
    (h : 8 * jsonString.length + 6 < fuel) : (jsonParseUnterminatedString fuel jsonString).Ends := by
  have hremaining := JsonParser.remaining_makeJsonParser jsonString
  have hvalue := (JsonParser.ends_values JsonParser.ends_atoiNumber fuel).1
    (makeJsonParser jsonString) (by omega)
  rw [JsonParser.jsonParseWith_atoi] at hvalue
  unfold jsonParseUnterminatedString
  refine hvalue.1.bind ?_
  rintro ⟨json, p⟩ hrun
  obtain ⟨hle, -⟩ := hvalue.2 _ hrun
  dsimp only at hle ⊢
  refine (JsonParser.ends_jsonMatchToken (by omega)).1.seq ?_
  rintro ⟨token, p'⟩
  dsimp only
  split
  · exact .ok _
  · exact .ok _
  · exact Exec.ends_throw

end ZoweCommon
