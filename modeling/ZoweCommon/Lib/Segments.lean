import Mathlib.Data.List.Basic

/-! Texts split at a separator, when what follows the last separator counts only if there is
something. -/
namespace Segments

variable {α : Type*} {part : List α} {parts : List (List α)}

def dropEmptyLast : List (List α) → List (List α)
  | [] => []
  | [part] => if part.isEmpty then [] else [part]
  | part :: next :: parts => part :: dropEmptyLast (next :: parts)

theorem dropEmptyLast_cons (h : parts ≠ []) :
    dropEmptyLast (part :: parts) = part :: dropEmptyLast parts := by
  cases parts with
  | nil => exact absurd rfl h
  | cons next parts => rfl

theorem dropEmptyLast_eq_self (h : ∀ part ∈ parts.getLast?, part ≠ []) :
    dropEmptyLast parts = parts := by
  induction parts with
  | nil => rfl
  | cons part parts ih =>
    cases parts with
    | nil => exact if_neg (by simpa using h part rfl)
    | cons next parts =>
      rw [List.getLast?_cons_cons] at h
      rw [dropEmptyLast_cons (List.cons_ne_nil _ _), ih h]

theorem dropEmptyLast_subset (parts : List (List α)) : dropEmptyLast parts ⊆ parts := by
  induction parts with
  | nil => exact List.Subset.refl _
  | cons part parts ih =>
    cases parts with
    | nil =>
      rw [dropEmptyLast]
      split_ifs
      · exact List.nil_subset _
      · exact List.Subset.refl _
    | cons next parts =>
      rw [dropEmptyLast_cons (List.cons_ne_nil _ _)]
      exact List.cons_subset_cons _ ih

theorem length_dropEmptyLast_lt (h : parts.getLast? = some []) :
    (dropEmptyLast parts).length < parts.length := by
  induction parts with
  | nil => cases h
  | cons part parts ih =>
    cases parts with
    | nil =>
      cases h
      exact Nat.one_pos
    | cons next parts =>
      rw [List.getLast?_cons_cons] at h
      rw [dropEmptyLast_cons (List.cons_ne_nil _ _)]
      exact Nat.succ_lt_succ (ih h)

variable [DecidableEq α] {sep : α}

def segments (sep : α) (text : List α) : List (List α) := dropEmptyLast (text.splitOn sep)

@[simp] theorem segments_nil : segments sep [] = [] := by
  rw [segments, List.splitOn_nil]
  rfl

theorem segments_of_notMem (h : sep ∉ part) (hne : part ≠ []) : segments sep part = [part] := by
  rw [segments, List.splitOn_eq_singleton h, dropEmptyLast, if_neg (by simpa using hne)]

theorem segments_append_cons (h : sep ∉ part) (rest : List α) :
    segments sep (part ++ sep :: rest) = part :: segments sep rest := by
  rw [segments, List.splitOn_append_cons_self_of_not_mem h]
  exact dropEmptyLast_cons (List.splitOn_ne_nil sep rest)

end Segments
