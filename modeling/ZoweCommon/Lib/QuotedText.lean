import Mathlib.Data.List.Basic

/-! Text that ends at a quote, in which the character after a backslash stands for itself. -/
namespace QuotedText

variable {α : Type*}

section escape

variable {backslash : α}

def escape (backslash : α) (special : α → Bool) (text : List α) : List α :=
  text.flatMap fun c => if special c then [backslash, c] else [c]

@[simp] theorem escape_nil (special : α → Bool) : escape backslash special [] = [] := rfl

theorem escape_cons_special {special : α → Bool} {c : α} (h : special c = true) (text : List α) :
    escape backslash special (c :: text) = backslash :: c :: escape backslash special text := by
  unfold escape
  rw [List.flatMap_cons, if_pos h]
  rfl

theorem escape_cons_plain {special : α → Bool} {c : α} (h : ¬special c = true) (text : List α) :
    escape backslash special (c :: text) = c :: escape backslash special text := by
  unfold escape
  rw [List.flatMap_cons, if_neg h]
  rfl

end escape

variable [DecidableEq α]

/-- The value up to the closing quote, and what is behind it. -/
def read (quote backslash : α) : List α → Option (List α × List α)
  | [] => none
  | c :: text =>
    if c = quote then some ([], text)
    else if c = backslash then
      match text with
      | [] => none
      | d :: text => (read quote backslash text).map fun r => (d :: r.1, r.2)
    else (read quote backslash text).map fun r => (c :: r.1, r.2)

variable {quote backslash : α}

theorem read_quote (text : List α) : read quote backslash (quote :: text) = some ([], text) := by
  rw [read.eq_def]
  exact if_pos rfl

theorem read_plain {c : α} (hquote : c ≠ quote) (hbackslash : c ≠ backslash) (text : List α) :
    read quote backslash (c :: text) = (read quote backslash text).map fun r => (c :: r.1, r.2) := by
  rw [read.eq_def]
  dsimp only
  rw [if_neg hquote, if_neg hbackslash]

theorem read_backslash (hne : backslash ≠ quote) (d : α) (text : List α) :
    read quote backslash (backslash :: d :: text) =
      (read quote backslash text).map fun r => (d :: r.1, r.2) := by
  rw [read.eq_def]
  dsimp only
  rw [if_neg hne, if_pos rfl]

theorem exists_read_of_map {c : α} {text value rest : List α}
    (h : (read quote backslash text).map (fun r => (c :: r.1, r.2)) = some (value, rest)) :
    ∃ value', value = c :: value' ∧ read quote backslash text = some (value', rest) := by
  obtain ⟨r, hr, hpair⟩ := Option.map_eq_some_iff.mp h
  obtain ⟨hvalue, hrest⟩ := Prod.mk.inj hpair
  exact ⟨r.1, hvalue.symm, by rw [hr, ← hrest]⟩

/-- What is behind the closing quote is shorter than the text. -/
theorem length_lt_of_read {text value rest : List α}
    (h : read quote backslash text = some (value, rest)) : rest.length < text.length := by
  induction text using read.induct quote backslash generalizing value rest with
  | case1 => cases h
  | case2 text =>
    rw [read_quote, Option.some_inj, Prod.mk.injEq] at h
    rw [← h.2]
    exact Nat.lt_succ_self _
  | case3 hne =>
    rw [read, if_neg hne, if_pos rfl] at h
    cases h
  | case4 d text hne ih =>
    rw [read_backslash hne] at h
    obtain ⟨value', -, hread⟩ := exists_read_of_map h
    have hlt := ih hread
    rw [List.length_cons, List.length_cons]
    omega
  | case5 c text hquote hbackslash ih =>
    rw [read_plain hquote hbackslash] at h
    obtain ⟨value', -, hread⟩ := exists_read_of_map h
    have hlt := ih hread
    rw [List.length_cons]
    omega

theorem read_escape (hne : backslash ≠ quote) {special : α → Bool} {text : List α}
    (hspecial : ∀ c ∈ text, c = quote ∨ c = backslash → special c = true) (rest : List α) :
    read quote backslash (escape backslash special text ++ quote :: rest) = some (text, rest) := by
  induction text with
  | nil => exact read_quote rest
  | cons c text ih =>
    obtain ⟨hc, htext⟩ := List.forall_mem_cons.mp hspecial
    by_cases hspec : special c = true
    · rw [escape_cons_special hspec, List.cons_append, List.cons_append, read_backslash hne,
        ih htext]
      rfl
    · have hquote : c ≠ quote := fun heq => hspec (hc (.inl heq))
      have hbackslash : c ≠ backslash := fun heq => hspec (hc (.inr heq))
      rw [escape_cons_plain hspec, List.cons_append, read_plain hquote hbackslash, ih htext]
      rfl

section quoteOnly

/-! When nothing but the quote is escaped, a backslash takes the character after it along. -/

variable (hne : backslash ≠ quote) {special : α → Bool} (hspecial : ∀ c, special c = true ↔ c = quote)
include hne hspecial

/-- What is read up to the right quote is no longer than the text was, and shorter if that has a
backslash. By induction on the length, as two characters may be read at once. -/
theorem length_of_read_escape {n : ℕ} : ∀ {text value rest : List α}, text.length ≤ n →
    read quote backslash (escape backslash special text ++ quote :: rest) = some (value, rest) →
    value.length ≤ text.length ∧ (backslash ∈ text → value.length < text.length) := by
  induction n with
  | zero =>
    intro text value rest hlength h
    rw [List.length_eq_zero_iff.mp (Nat.le_zero.mp hlength)] at h ⊢
    rw [escape_nil, List.nil_append, read_quote, Option.some_inj, Prod.mk.injEq] at h
    rw [← h.1]
    exact ⟨Nat.le_refl _, fun hmem => (by cases hmem)⟩
  | succ n ih =>
    intro text value rest hlength h
    cases text with
    | nil => exact ih (Nat.zero_le _) h
    | cons c text =>
      rw [List.length_cons] at hlength
      by_cases hquote : c = quote
      · rw [escape_cons_special ((hspecial c).mpr hquote), List.cons_append, List.cons_append,
          read_backslash hne] at h
        obtain ⟨value', rfl, hread⟩ := exists_read_of_map h
        obtain ⟨hle, hlt⟩ := ih (by omega) hread
        rw [List.length_cons, List.length_cons]
        refine ⟨by omega, fun hmem => ?_⟩
        rcases List.mem_cons.mp hmem with heq | hmem
        · exact absurd (heq.trans hquote) hne
        · exact Nat.succ_lt_succ (hlt hmem)
      have hplain : ¬special c = true := fun hspec => hquote ((hspecial c).mp hspec)
      rw [escape_cons_plain hplain, List.cons_append] at h
      by_cases hbackslash : c = backslash
      · obtain rfl := hbackslash
        suffices hshort : value.length < (c :: text).length from ⟨Nat.le_of_lt hshort, fun _ => hshort⟩
        cases text with
        | nil =>
          -- the closing quote is taken literally
          rw [escape_nil, List.nil_append, read_backslash hne] at h
          obtain ⟨value', -, hread⟩ := exists_read_of_map h
          exact absurd (length_lt_of_read hread) (Nat.lt_irrefl _)
        | cons d text =>
          rw [List.length_cons] at hlength
          by_cases hd : d = quote
          · -- the escape of the quote is taken literally, and the quote ends the value
            rw [escape_cons_special ((hspecial d).mpr hd), List.cons_append, List.cons_append,
              read_backslash hne, hd, read_quote, Option.map_some, Option.some_inj,
              Prod.mk.injEq] at h
            have hlength' := congrArg List.length h.2
            rw [List.length_append, List.length_cons] at hlength'
            omega
          · have hplain' : ¬special d = true := fun hspec => hd ((hspecial d).mp hspec)
            rw [escape_cons_plain hplain', List.cons_append, read_backslash hne] at h
            obtain ⟨value', rfl, hread⟩ := exists_read_of_map h
            obtain ⟨hle, -⟩ := ih (by omega) hread
            rw [List.length_cons, List.length_cons, List.length_cons]
            omega
      · rw [read_plain hquote hbackslash] at h
        obtain ⟨value', rfl, hread⟩ := exists_read_of_map h
        obtain ⟨hle, hlt⟩ := ih (by omega) hread
        rw [List.length_cons, List.length_cons]
        refine ⟨by omega, fun hmem => ?_⟩
        rcases List.mem_cons.mp hmem with heq | hmem
        · exact absurd heq.symm hbackslash
        · exact Nat.succ_lt_succ (hlt hmem)

theorem read_escape_iff (text rest : List α) :
    read quote backslash (escape backslash special text ++ quote :: rest) = some (text, rest) ↔
      backslash ∉ text := by
  constructor
  · intro h hmem
    exact Nat.lt_irrefl _ ((length_of_read_escape hne hspecial (Nat.le_refl _) h).2 hmem)
  · intro hnot
    apply read_escape hne
    rintro c hc (heq | rfl)
    · exact (hspecial c).mpr heq
    · exact absurd hc hnot

end quoteOnly

end QuotedText
