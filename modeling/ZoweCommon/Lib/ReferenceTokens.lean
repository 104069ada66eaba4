import Mathlib.Tactic.Common
import ZoweCommon.Lib.Segments

/-! Texts of tokens that each begin with a slash; a slash in a token is escaped, and so is the
tilde that escapes. -/
namespace ReferenceTokens

open Segments

structure Alphabet (α : Type*) where
  tilde : α
  slash : α
  zero : α
  one : α
  tilde_ne_slash : tilde ≠ slash
  zero_ne_one : zero ≠ one
  zero_ne_tilde : zero ≠ tilde
  one_ne_tilde : one ≠ tilde
  zero_ne_slash : zero ≠ slash
  one_ne_slash : one ≠ slash

variable {α : Type*} (A : Alphabet α)

/-- A tilde that escapes nothing. -/
def BadTilde (text : List α) : Prop :=
  ∃ a b, text = a ++ A.tilde :: b ∧ ∀ c ∈ b.head?, c ≠ A.zero ∧ c ≠ A.one

section Bad

variable {A} {text : List α} {c d : α}

theorem not_badTilde_nil : ¬BadTilde A [] := by
  intro ⟨a, b, h, _⟩
  cases a with
  | nil => cases h
  | cons c a => cases h

theorem badTilde_cons (h : c ≠ A.tilde) : BadTilde A (c :: text) ↔ BadTilde A text := by
  constructor
  · intro ⟨a, b, htext, hnext⟩
    cases a with
    | nil => exact absurd (List.cons.inj htext).1 h
    | cons e a => exact ⟨a, b, (List.cons.inj htext).2, hnext⟩
  · intro ⟨a, b, htext, hnext⟩
    exact ⟨c :: a, b, congrArg (c :: ·) htext, hnext⟩

theorem badTilde_tilde : BadTilde A (A.tilde :: text) ↔
    (∀ c ∈ text.head?, c ≠ A.zero ∧ c ≠ A.one) ∨ BadTilde A text := by
  constructor
  · intro ⟨a, b, htext, hnext⟩
    cases a with
    | nil =>
      rw [(List.cons.inj htext).2]
      exact .inl hnext
    | cons e a => exact .inr ⟨a, b, (List.cons.inj htext).2, hnext⟩
  · intro h
    obtain hnext | ⟨a, b, htext, hnext⟩ := h
    · exact ⟨[], text, rfl, hnext⟩
    · exact ⟨A.tilde :: a, b, congrArg (A.tilde :: ·) htext, hnext⟩

theorem badTilde_escape (hd : d = A.zero ∨ d = A.one) :
    BadTilde A (A.tilde :: d :: text) ↔ BadTilde A text := by
  have hne : d ≠ A.tilde := by
    obtain rfl | rfl := hd
    · exact A.zero_ne_tilde
    · exact A.one_ne_tilde
  rw [badTilde_tilde, badTilde_cons hne]
  apply or_iff_right
  intro hnext
  obtain ⟨hzero, hone⟩ := hnext d rfl
  exact hd.elim hzero hone

/-- A slash ends what a tilde before it could escape. -/
theorem badTilde_append_slash (a b : List α) :
    BadTilde A (a ++ A.slash :: b) ↔ BadTilde A a ∨ BadTilde A b := by
  induction a with
  | nil =>
    rw [List.nil_append, badTilde_cons A.tilde_ne_slash.symm, or_iff_right not_badTilde_nil]
  | cons c a ih =>
    rw [List.cons_append]
    by_cases hc : c = A.tilde
    · rw [hc, badTilde_tilde, badTilde_tilde, ih, or_assoc]
      apply or_congr_left
      cases a with
      | nil =>
        refine iff_of_true ?_ nofun
        intro e he
        rw [← Option.some.inj he]
        exact ⟨A.zero_ne_slash.symm, A.one_ne_slash.symm⟩
      | cons d a => exact Iff.rfl
    · rw [badTilde_cons hc, badTilde_cons hc, ih]

end Bad

variable [DecidableEq α]

def escape : List α → List α
  | [] => []
  | c :: token =>
    if c = A.tilde then A.tilde :: A.zero :: escape token
    else if c = A.slash then A.tilde :: A.one :: escape token
    else c :: escape token

/-- The token that a text is escaped from, if there is one. -/
def unescape : List α → Option (List α)
  | [] => some []
  | [c] => if c = A.tilde then none else some [c]
  | c :: d :: text =>
    if c = A.tilde then
      if d = A.zero then (unescape text).map (A.tilde :: ·)
      else if d = A.one then (unescape text).map (A.slash :: ·)
      else none
    else (unescape (d :: text)).map (c :: ·)

def join (tokens : List (List α)) : List α := tokens.flatMap fun token => A.slash :: escape A token

variable {A} {text token : List α} {tokens : List (List α)}

theorem unescape_cons {c : α} (h : c ≠ A.tilde) (text : List α) :
    unescape A (c :: text) = (unescape A text).map (c :: ·) := by
  cases text with
  | nil =>
    rw [unescape.eq_2, if_neg h]
    rfl
  | cons d text => rw [unescape, if_neg h]

theorem unescape_zero (text : List α) :
    unescape A (A.tilde :: A.zero :: text) = (unescape A text).map (A.tilde :: ·) := by
  rw [unescape, if_pos rfl, if_pos rfl]

theorem unescape_one (text : List α) :
    unescape A (A.tilde :: A.one :: text) = (unescape A text).map (A.slash :: ·) := by
  rw [unescape, if_pos rfl, if_neg A.zero_ne_one.symm, if_pos rfl]

theorem unescape_escape (token : List α) : unescape A (escape A token) = some token := by
  induction token with
  | nil => rfl
  | cons c token ih =>
    rw [escape]
    split_ifs with htilde hslash
    · rw [unescape_zero, ih, htilde]
      rfl
    · rw [unescape_one, ih, hslash]
      rfl
    · rw [unescape_cons htilde, ih]
      rfl

theorem slash_notMem_escape (token : List α) : A.slash ∉ escape A token := by
  induction token with
  | nil => exact List.not_mem_nil
  | cons c token ih =>
    rw [escape]
    split_ifs with htilde hslash
    · intro hmem
      obtain h | h | h := by simpa only [List.mem_cons] using hmem
      · exact A.tilde_ne_slash h.symm
      · exact A.zero_ne_slash h.symm
      · exact ih h
    · intro hmem
      obtain h | h | h := by simpa only [List.mem_cons] using hmem
      · exact A.tilde_ne_slash h.symm
      · exact A.one_ne_slash h.symm
      · exact ih h
    · intro hmem
      obtain h | h := List.mem_cons.mp hmem
      · exact hslash h.symm
      · exact ih h

theorem mem_escape {c : α} (h : c ∈ token) : c = A.slash ∨ c ∈ escape A token := by
  induction token with
  | nil => cases h
  | cons d token ih =>
    rw [escape]
    obtain rfl | hmem := List.mem_cons.mp h
    · split_ifs with htilde hslash
      · rw [htilde]
        exact .inr List.mem_cons_self
      · exact .inl hslash
      · exact .inr List.mem_cons_self
    · apply (ih hmem).imp_right
      intro hescape
      split_ifs
      · exact List.mem_cons_of_mem _ (List.mem_cons_of_mem _ hescape)
      · exact List.mem_cons_of_mem _ (List.mem_cons_of_mem _ hescape)
      · exact List.mem_cons_of_mem _ hescape

theorem escape_ne_nil (h : token ≠ []) : escape A token ≠ [] := by
  cases token with
  | nil => exact absurd rfl h
  | cons c token =>
    rw [escape]
    split_ifs
    · exact List.cons_ne_nil _ _
    · exact List.cons_ne_nil _ _
    · exact List.cons_ne_nil _ _

theorem escape_of_unescape (hslash : A.slash ∉ text) (h : unescape A text = some token) :
    escape A token = text := by
  induction text using unescape.induct A generalizing token with
  | case1 =>
    cases h
    rfl
  | case2 =>
    rw [unescape, if_pos rfl] at h
    cases h
  | case3 c hc =>
    rw [unescape, if_neg hc] at h
    cases h
    have hne : c ≠ A.slash := fun heq => hslash (heq ▸ List.mem_cons_self)
    rw [escape, if_neg hc, if_neg hne]
    rfl
  | case4 text ih =>
    rw [unescape_zero] at h
    obtain ⟨rest, hrest, rfl⟩ := Option.map_eq_some_iff.mp h
    have hmem := fun hmem => hslash (List.mem_cons_of_mem _ (List.mem_cons_of_mem _ hmem))
    rw [escape, if_pos rfl, ih hmem hrest]
  | case5 text _ ih =>
    rw [unescape_one] at h
    obtain ⟨rest, hrest, rfl⟩ := Option.map_eq_some_iff.mp h
    have hmem := fun hmem => hslash (List.mem_cons_of_mem _ (List.mem_cons_of_mem _ hmem))
    rw [escape, if_neg A.tilde_ne_slash.symm, if_pos rfl, ih hmem hrest]
  | case6 d text hzero hone =>
    rw [unescape, if_pos rfl, if_neg hzero, if_neg hone] at h
    cases h
  | case7 c d text hc ih =>
    rw [unescape_cons hc] at h
    obtain ⟨rest, hrest, rfl⟩ := Option.map_eq_some_iff.mp h
    have hne : c ≠ A.slash := fun heq => hslash (heq ▸ List.mem_cons_self)
    rw [escape, if_neg hc, if_neg hne, ih (fun hmem => hslash (List.mem_cons_of_mem _ hmem)) hrest]

/-- A text stands for no token exactly if a tilde in it escapes nothing. -/
theorem unescape_eq_none : unescape A text = none ↔ BadTilde A text := by
  induction text using unescape.induct A with
  | case1 => exact iff_of_false nofun not_badTilde_nil
  | case2 =>
    rw [unescape, if_pos rfl]
    exact iff_of_true rfl (badTilde_tilde.mpr (.inl nofun))
  | case3 c hc =>
    rw [unescape, if_neg hc, badTilde_cons hc]
    exact iff_of_false nofun not_badTilde_nil
  | case4 text ih =>
    rw [unescape_zero, Option.map_eq_none_iff, ih, badTilde_escape (.inl rfl)]
  | case5 text _ ih =>
    rw [unescape_one, Option.map_eq_none_iff, ih, badTilde_escape (.inr rfl)]
  | case6 d text hzero hone =>
    rw [unescape, if_pos rfl, if_neg hzero, if_neg hone]
    apply iff_of_true rfl
    apply badTilde_tilde.mpr
    left
    intro e he
    rw [← Option.some.inj he]
    exact ⟨hzero, hone⟩
  | case7 c d text hc ih => rw [unescape_cons hc, Option.map_eq_none_iff, ih, badTilde_cons hc]

variable (A) in
/-- Induction over a text, from one slash to the next. -/
@[elab_as_elim] theorem slash_induction {motive : List α → Prop} (nil : motive [])
    (last : ∀ part, A.slash ∉ part → part ≠ [] → motive part)
    (slash : ∀ part rest, A.slash ∉ part → motive rest → motive (part ++ A.slash :: rest))
    (text : List α) : motive text := by
  induction hn : text.length using Nat.strongRecOn generalizing text with
  | ind n ih =>
    by_cases hslash : A.slash ∈ text
    · obtain ⟨part, rest, rfl, hpart⟩ := List.eq_append_cons_of_mem hslash
      rw [List.length_append, List.length_cons] at hn
      exact slash part rest hpart (ih rest.length (by omega) rest rfl)
    · by_cases hempty : text = []
      · rw [hempty]
        exact nil
      · exact last text hslash hempty

variable (A) in
/-- The tokens of a text, but for the first slash of it and for an empty last one. -/
def tokensOf (text : List α) : Option (List (List α)) := (segments A.slash text).mapM (unescape A)

theorem tokensOf_nil : tokensOf A [] = some [] := by
  rw [tokensOf, segments_nil]
  rfl

theorem tokensOf_last (hslash : A.slash ∉ text) (hne : text ≠ []) :
    tokensOf A text = (unescape A text).map ([·]) := by
  rw [tokensOf, segments_of_notMem hslash hne, List.mapM_cons, List.mapM_nil]
  cases unescape A text with
  | none => rfl
  | some token => rfl

theorem tokensOf_slash (hslash : A.slash ∉ text) (rest : List α) :
    tokensOf A (text ++ A.slash :: rest) =
      (unescape A text).bind fun token => (tokensOf A rest).map (token :: ·) := by
  rw [tokensOf, segments_append_cons hslash, List.mapM_cons, tokensOf]
  cases unescape A text with
  | none => rfl
  | some token =>
    cases (segments A.slash rest).mapM (unescape A) with
    | none => rfl
    | some tokens => rfl

theorem tokensOf_join_cons (token : List α) (tokens : List (List α)) :
    tokensOf A (escape A token ++ join A tokens) = some (dropEmptyLast (token :: tokens)) := by
  induction tokens generalizing token with
  | nil =>
    have hjoin : join A [] = [] := rfl
    rw [hjoin, List.append_nil]
    cases token with
    | nil => exact tokensOf_nil
    | cons c token =>
      rw [tokensOf_last (slash_notMem_escape _) (escape_ne_nil (List.cons_ne_nil _ _)),
        unescape_escape]
      rfl
  | cons next tokens ih =>
    have hjoin : join A (next :: tokens) = A.slash :: (escape A next ++ join A tokens) := rfl
    rw [hjoin, tokensOf_slash (slash_notMem_escape token), unescape_escape, ih]
    rfl

theorem tokensOf_eq_none : tokensOf A text = none ↔ BadTilde A text := by
  induction text using slash_induction A with
  | nil =>
    rw [tokensOf_nil]
    exact iff_of_false nofun not_badTilde_nil
  | last part hslash hne => rw [tokensOf_last hslash hne, Option.map_eq_none_iff, unescape_eq_none]
  | slash part rest hslash ih =>
    rw [tokensOf_slash hslash, badTilde_append_slash, ← unescape_eq_none, ← ih]
    cases unescape A part with
    | none => exact iff_of_true rfl (.inl rfl)
    | some token =>
      rw [Option.bind_some, Option.map_eq_none_iff]
      exact (or_iff_right nofun).symm

theorem mem_of_tokensOf (h : tokensOf A text = some tokens) (htoken : token ∈ tokens) {c : α}
    (hc : c ∈ token) : c = A.slash ∨ c ∈ text := by
  induction text using slash_induction A generalizing tokens with
  | nil =>
    rw [tokensOf_nil] at h
    cases h
    cases htoken
  | last part hslash hne =>
    rw [tokensOf_last hslash hne] at h
    obtain ⟨first, hfirst, rfl⟩ := Option.map_eq_some_iff.mp h
    rw [List.mem_singleton] at htoken
    rw [← escape_of_unescape hslash hfirst, ← htoken]
    exact mem_escape hc
  | slash part rest hslash ih =>
    rw [tokensOf_slash hslash] at h
    obtain ⟨first, hfirst, hrest⟩ := Option.bind_eq_some_iff.mp h
    obtain ⟨others, hothers, rfl⟩ := Option.map_eq_some_iff.mp hrest
    obtain rfl | hmem := List.mem_cons.mp htoken
    · apply (mem_escape hc).imp_right
      rw [escape_of_unescape hslash hfirst]
      exact List.mem_append_left _
    · apply (ih hothers hmem).imp_right
      exact fun hmem => List.mem_append_right _ (List.mem_cons_of_mem _ hmem)

theorem length_join_le (h : tokensOf A text = some tokens) :
    (join A tokens).length ≤ text.length + 1 := by
  induction text using slash_induction A generalizing tokens with
  | nil =>
    rw [tokensOf_nil] at h
    cases h
    exact Nat.zero_le _
  | last part hslash hne =>
    rw [tokensOf_last hslash hne] at h
    obtain ⟨token, htoken, rfl⟩ := Option.map_eq_some_iff.mp h
    have hjoin : join A [token] = A.slash :: (escape A token ++ []) := rfl
    have hlength : (join A [token]).length = part.length + 1 := by
      rw [hjoin, escape_of_unescape hslash htoken, List.append_nil, List.length_cons]
    exact Nat.le_of_eq hlength
  | slash part rest hslash ih =>
    rw [tokensOf_slash hslash] at h
    obtain ⟨token, htoken, hrest⟩ := Option.bind_eq_some_iff.mp h
    obtain ⟨others, hothers, rfl⟩ := Option.map_eq_some_iff.mp hrest
    have hle := ih hothers
    have hjoin : join A (token :: others) = A.slash :: (escape A token ++ join A others) := rfl
    rw [hjoin, escape_of_unescape hslash htoken, List.length_cons, List.length_append,
      List.length_append, List.length_cons]
    omega

end ReferenceTokens
