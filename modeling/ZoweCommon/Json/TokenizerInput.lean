import ZoweCommon.Json.ParserReturns
import ZoweCommon.Json.TokenizerText

/-! Which texts the tokenizer delivers whole. -/
namespace ZoweCommon

open CLibrary CString

/-- What a scanner asks the tokenizer for. -/
inductive JsonTokenizerCall
  | jsonTokenizerLookahead
  | jsonTokenizerRead
  deriving DecidableEq

namespace JsonTokenizer

variable {t t' : JsonTokenizer} {text input : List Byte} {fuel : ℕ}

def call (t : JsonTokenizer) : JsonTokenizerCall → ℤ × JsonTokenizer
  | .jsonTokenizerLookahead => t.jsonTokenizerLookahead
  | .jsonTokenizerRead => t.jsonTokenizerRead

def answers : List JsonTokenizerCall → JsonTokenizer → List ℤ
  | [], _ => []
  | c :: calls, t => (t.call c).1 :: answers calls (t.call c).2

/-- The bytes that the calls ask for, if nothing of the text is lost. -/
def asked : List JsonTokenizerCall → List Byte → List (Option Byte)
  | [], _ => []
  | .jsonTokenizerLookahead :: calls, text => text.head? :: asked calls text
  | .jsonTokenizerRead :: calls, text => text.head? :: asked calls text.tail

/-- A byte is delivered as a signed `char`, and `EOF` only behind the last one. -/
structure Delivers (byte : Option Byte) (answer : ℤ) : Prop where
  value : answer = match byte with
    | none => EOF
    | some b => b.toInt
  atEnd : answer = EOF → byte = none

theorem delivers_head (h : 0xFF ∉ text) : Delivers text.head? (peek text) := by
  cases text with
  | nil => exact ⟨rfl, fun _ => rfl⟩
  | cons c text =>
    refine ⟨rfl, fun heof => ?_⟩
    have hc : c ≠ 0xFF := by
      rintro rfl
      exact h List.mem_cons_self
    exact absurd heof (toInt_ne hc rfl)

/-- By induction on the calls: the tokenizer stands where they ask. -/
theorem At.answers (calls : List JsonTokenizerCall) (h : t.At text) (hchar : 0xFF ∉ text) :
    List.Forall₂ Delivers (asked calls text) (t.answers calls) := by
  induction calls generalizing t text with
  | nil => exact .nil
  | cons c calls ih =>
    rw [JsonTokenizer.answers]
    cases c with
    | jsonTokenizerLookahead =>
      obtain ⟨t', hrun, h'⟩ := h.jsonTokenizerLookahead
      rw [call, hrun]
      exact .cons (delivers_head hchar) (ih h' hchar)
    | jsonTokenizerRead =>
      obtain ⟨t', hrun, h'⟩ := h.jsonTokenizerRead
      rw [call, hrun]
      exact .cons (delivers_head hchar) (ih h' fun hmem => hchar (List.mem_of_mem_tail hmem))

theorem jsonTokenizerRead_stream (h : t.unreadChar = 0) :
    t.jsonTokenizerRead.1 = peek t.input ∧ t.jsonTokenizerRead.2.input = t.input.tail ∧
      t.jsonTokenizerRead.2.unreadChar = 0 := by
  rcases read_stream h with ⟨hnil, heof, hinput, hunread⟩ | ⟨b, input, hcons, hb, hinput, hunread⟩
  · rw [hnil, heof, hinput]
    exact ⟨rfl, rfl, hunread⟩
  · rw [hcons, hb, hinput]
    exact ⟨rfl, rfl, hunread⟩

/-- The end was not seen before it is there. -/
structure Clean (t : JsonTokenizer) : Prop where
  noOnes : 0xFF ∉ t.input
  unread : t.unreadChar = EOF → t.input = []

theorem Clean.jsonTokenizerRead (h : t.Clean) : t.jsonTokenizerRead.2.Clean ∧
    (t.jsonTokenizerRead.1 = EOF → t.jsonTokenizerRead.2.input = []) := by
  by_cases hunread : t.unreadChar = 0
  · obtain ⟨hread, hinput, hunread'⟩ := jsonTokenizerRead_stream hunread
    rw [hread, hinput]
    refine ⟨⟨?_, ?_⟩, ?_⟩
    · rw [hinput]
      exact fun hmem => h.noOnes (List.mem_of_mem_tail hmem)
    · rw [hunread']
      intro heof
      cases heof
    · intro heof
      have hnone := (delivers_head h.noOnes).atEnd heof
      rw [List.head?_eq_none_iff.mp hnone]
      rfl
  · have hread : t.jsonTokenizerRead = (t.unreadChar, { t with unreadChar := 0 }) := if_pos hunread
    rw [hread]
    exact ⟨⟨h.noOnes, fun heof => by cases heof⟩, h.unread⟩

theorem Clean.jsonTokenizerLookahead (h : t.Clean) : t.jsonTokenizerLookahead.2.Clean ∧
    (t.jsonTokenizerLookahead.1 = EOF → t.jsonTokenizerLookahead.2.input = []) := by
  by_cases hunread : t.unreadChar = 0
  · have hlook : t.jsonTokenizerLookahead =
        (t.jsonTokenizerRead.1, { t.jsonTokenizerRead.2 with unreadChar := t.jsonTokenizerRead.1 }) :=
      if_neg (not_not.mpr hunread)
    obtain ⟨hclean, hend⟩ := h.jsonTokenizerRead
    rw [hlook]
    exact ⟨⟨hclean.noOnes, hend⟩, hend⟩
  · have hlook : t.jsonTokenizerLookahead = (t.unreadChar, t) := if_pos hunread
    rw [hlook]
    exact ⟨h, h.unread⟩

theorem Clean.ensureRoom (h : t.Clean) {pos : ℕ} (hroom : t.ensureRoom pos = some t') :
    t'.Clean := by
  unfold JsonTokenizer.ensureRoom jsonTokenizerGrowBuffer at hroom
  split_ifs at hroom
  · cases hroom
    exact ⟨h.noOnes, h.unread⟩
  · cases hroom
    exact h

theorem Clean.readSign (h : t.Clean) : t.readSign.2.Clean := by
  obtain ⟨hclean, -⟩ := h.jsonTokenizerLookahead
  unfold JsonTokenizer.readSign
  dsimp only
  split_ifs
  · exact hclean.jsonTokenizerRead.1
  · exact hclean

end JsonTokenizer

namespace JsonParser

open JsonTokenizer

variable {p p' : JsonParser} {fuel : ℕ} {token : JsonToken}

/-- A token of the end waits at the end. -/
structure Reads (p : JsonParser) : Prop where
  tokenizer : p.tokenizer.Clean
  unread {token : JsonToken} : p.unreadToken = some token → token.type = .JSON_TOKEN_EOF →
    p.tokenizer.input = []

/-- What becomes of the text when a token is read. -/
def Delivered (r : JsonToken × JsonParser) : Prop :=
  r.2.tokenizer.Clean ∧ (r.1.type = .JSON_TOKEN_EOF → r.2.tokenizer.input = [])

theorem tokenizer_jsonParseFail (p : JsonParser) (message : List Byte) :
    (p.jsonParseFail message).tokenizer = p.tokenizer := by
  unfold jsonParseFail
  split_ifs <;> rfl

theorem tokenizer_jsonValidateToken (p : JsonParser) (token : JsonToken) :
    (p.jsonValidateToken token).tokenizer = p.tokenizer := by
  unfold jsonValidateToken
  split
  case h_5 => rfl
  all_goals exact tokenizer_jsonParseFail _ _

theorem Delivered.validate {r : JsonToken × JsonParser} (h : Delivered r) :
    Delivered (r.1, r.2.jsonValidateToken r.1) := by
  unfold Delivered at h ⊢
  rw [tokenizer_jsonValidateToken]
  exact h

end JsonParser

namespace LosesNothing

variable {jsonString : List Byte}

end LosesNothing

end ZoweCommon
