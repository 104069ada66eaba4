import Mathlib.Data.List.Basic

/-! Pieces of a list, read and written in place. -/
namespace ZoweCommon
namespace Slices

universe u

variable {α : Type u}

def slice (xs : List α) (start n : ℕ) : List α := (xs.drop start).take n

def splice (xs : List α) (start : ℕ) (ys : List α) : List α :=
  xs.take start ++ ys ++ xs.drop (start + ys.length)

theorem slice_append {xs ys zs : List α} {start n : ℕ} (hstart : start = xs.length)
    (hn : n = ys.length) : slice (xs ++ (ys ++ zs)) start n = ys := by
  subst hstart hn
  unfold slice
  rw [List.drop_left, List.take_left]

theorem slice_append_left {xs : List α} (ys : List α) {start n : ℕ} (h : start + n ≤ xs.length) :
    slice (xs ++ ys) start n = slice xs start n := by
  unfold slice
  rw [List.drop_append_of_le_length (by omega), List.take_append_of_le_length]
  rw [List.length_drop]
  omega

theorem length_slice {xs : List α} {start n : ℕ} (h : start + n ≤ xs.length) :
    (slice xs start n).length = n := by
  unfold slice
  rw [List.length_take, List.length_drop]
  omega

/-- A list around one of its slices. -/
theorem eq_append_slice {xs : List α} {start n : ℕ} (h : start + n ≤ xs.length) :
    ∃ pre post, xs = pre ++ (slice xs start n ++ post) ∧ pre.length = start := by
  refine ⟨xs.take start, xs.drop (start + n), ?_, ?_⟩
  · unfold slice
    rw [← List.drop_drop, List.take_append_drop, List.take_append_drop]
  · rw [List.length_take]
    omega

theorem splice_append {xs ys ys' zs : List α} {start : ℕ} (hstart : start = xs.length)
    (hlength : ys'.length = ys.length) :
    splice (xs ++ (ys ++ zs)) start ys' = xs ++ (ys' ++ zs) := by
  subst hstart
  unfold splice
  rw [List.take_left, ← List.drop_drop, List.drop_left, hlength, List.drop_left, List.append_assoc]

section writes

variable {xs ys : List α} {start : ℕ} (h : start + ys.length ≤ xs.length)
include h

theorem length_splice : (splice xs start ys).length = xs.length := by
  unfold splice
  rw [List.length_append, List.length_append, List.length_take, List.length_drop]
  omega

theorem take_splice :
    (splice xs start ys).take (start + ys.length) = xs.take start ++ ys := by
  unfold splice
  apply List.take_left'
  rw [List.length_append, List.length_take]
  omega

theorem slice_splice : slice (splice xs start ys) start ys.length = ys := by
  obtain ⟨pre, post, hxs, hpre⟩ := eq_append_slice h
  rw [hxs, splice_append hpre.symm (length_slice h).symm]
  exact slice_append hpre.symm rfl

theorem slice_splice_before {i n : ℕ} (hi : i + n ≤ start) :
    slice (splice xs start ys) i n = slice xs i n := by
  obtain ⟨pre, post, hxs, hpre⟩ := eq_append_slice h
  rw [hxs, splice_append hpre.symm (length_slice h).symm, slice_append_left _ (hpre ▸ hi),
    slice_append_left _ (hpre ▸ hi)]

theorem slice_splice_after {i n : ℕ} (hi : start + ys.length ≤ i) :
    slice (splice xs start ys) i n = slice xs i n := by
  have hdrop : (splice xs start ys).drop (start + ys.length) = xs.drop (start + ys.length) := by
    unfold splice
    apply List.drop_left'
    rw [List.length_append, List.length_take]
    omega
  obtain ⟨k, rfl⟩ := Nat.exists_eq_add_of_le hi
  unfold slice
  rw [← List.drop_drop, hdrop, List.drop_drop]

end writes

section pieces

/-- The pieces of a length, and what is left for the last one. -/
def pieces (size : ℕ) (xs : List α) : List (List α) :=
  if _h : xs ≠ [] ∧ 0 < size then xs.take size :: pieces size (xs.drop size) else []
  termination_by xs.length
  decreasing_by
    have hpos := List.length_pos_iff.mpr _h.1
    rw [List.length_drop]
    omega

theorem pieces_nil (size : ℕ) : pieces size ([] : List α) = [] := by
  rw [pieces, dif_neg fun h => h.1 rfl]

theorem pieces_of_ne_nil {size : ℕ} (hsize : 0 < size) {xs : List α} (h : xs ≠ []) :
    pieces size xs = xs.take size :: pieces size (xs.drop size) := by
  rw [pieces, dif_pos ⟨h, hsize⟩]

theorem flatten_pieces {size : ℕ} (hsize : 0 < size) (xs : List α) :
    (pieces size xs).flatten = xs := by
  fun_induction pieces size xs with
  | case1 xs h ih => rw [List.flatten_cons, ih, List.take_append_drop]
  | case2 xs h =>
    have hnil : xs = [] := by
      by_contra hne
      exact h ⟨hne, hsize⟩
    rw [hnil, List.flatten_nil]

theorem length_le_of_mem_pieces {size : ℕ} {xs piece : List α} (h : piece ∈ pieces size xs) :
    piece.length ≤ size := by
  fun_induction pieces size xs with
  | case1 xs hne ih =>
    rcases List.mem_cons.mp h with rfl | h
    · exact List.length_take_le _ _
    · exact ih h
  | case2 xs hne => cases h

end pieces

end Slices
end ZoweCommon
