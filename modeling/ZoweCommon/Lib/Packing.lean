import Mathlib.Algebra.BigOperators.Group.List.Basic
import Mathlib.Algebra.Ring.Int.Defs
import Mathlib.Data.List.Induction

/-! Sizes packed in their order into blocks that are equally large. -/
namespace Packing

/-- How many blocks are open, and what is left of the last one. -/
structure State where
  count : ℕ
  left : ℤ

def start : State := ⟨0, 0⟩

/-- The next size, in a new block if the last one has too little left. -/
def pack (B : ℤ) (s : State) (size : ℤ) : State :=
  if s.left < size then ⟨s.count + 1, B - size⟩ else ⟨s.count, s.left - size⟩

def packAll (B : ℤ) (s : State) (sizes : List ℤ) : State := sizes.foldl (pack B) s

/-- The sizes are in fewer blocks than a number, in their order. -/
def FitsBelow (B M : ℤ) (sizes : List ℤ) : Prop :=
  ∃ groups : List (List ℤ), groups.flatten = sizes ∧ (groups.length : ℤ) < M ∧
    ∀ group ∈ groups, group.sum ≤ B

section

variable {B : ℤ} {s : State} {sizes : List ℤ}

@[simp] theorem packAll_nil : packAll B s [] = s := rfl

@[simp] theorem packAll_cons (size : ℤ) :
    packAll B s (size :: sizes) = packAll B (pack B s size) sizes := rfl

theorem packAll_append (sizes' : List ℤ) :
    packAll B s (sizes ++ sizes') = packAll B (packAll B s sizes) sizes' :=
  List.foldl_append

theorem le_count_pack (size : ℤ) : s.count ≤ (pack B s size).count := by
  unfold pack
  split_ifs
  · exact Nat.le_succ _
  · exact Nat.le_refl _

theorem le_count_packAll : s.count ≤ (packAll B s sizes).count := by
  induction sizes generalizing s with
  | nil => exact Nat.le_refl _
  | cons size sizes ih => exact Nat.le_trans (le_count_pack size) ih

theorem sum_nonneg (h : ∀ size ∈ sizes, 0 ≤ size) : 0 ≤ sizes.sum := by
  induction sizes with
  | nil => exact Int.le_refl 0
  | cons size sizes ih =>
    rw [List.sum_cons]
    exact Int.add_nonneg (h size List.mem_cons_self)
      (ih fun n hn => h n (List.mem_cons_of_mem _ hn))

/-- What has room is packed without a new block. -/
theorem count_packAll_of_sum_le (h : ∀ size ∈ sizes, 0 ≤ size) (hsum : sizes.sum ≤ s.left) :
    (packAll B s sizes).count = s.count := by
  induction sizes generalizing s with
  | nil => rfl
  | cons size sizes ih =>
    have hrest : ∀ n ∈ sizes, 0 ≤ n := fun n hn => h n (List.mem_cons_of_mem _ hn)
    have hnonneg := sum_nonneg hrest
    rw [List.sum_cons] at hsum
    have hpack : pack B s size = ⟨s.count, s.left - size⟩ := if_neg (by omega)
    rw [packAll_cons, hpack, ih hrest (by dsimp only; omega)]

/-- What has room in one block opens at most one. -/
theorem count_packAll_le (h : ∀ size ∈ sizes, 0 ≤ size) (hsum : sizes.sum ≤ B) :
    (packAll B s sizes).count ≤ s.count + 1 := by
  induction sizes generalizing s with
  | nil => exact Nat.le_succ _
  | cons size sizes ih =>
    have hrest : ∀ n ∈ sizes, 0 ≤ n := fun n hn => h n (List.mem_cons_of_mem _ hn)
    have hsize := h size List.mem_cons_self
    rw [List.sum_cons] at hsum
    rw [packAll_cons]
    by_cases hless : s.left < size
    · have hpack : pack B s size = ⟨s.count + 1, B - size⟩ := if_pos hless
      rw [hpack]
      exact Nat.le_of_eq (count_packAll_of_sum_le hrest (by dsimp only; omega))
    · have hpack : pack B s size = ⟨s.count, s.left - size⟩ := if_neg hless
      rw [hpack]
      exact ih hrest (by omega)

/-- No other way to pack the sizes in their order has fewer blocks. -/
theorem count_packAll_flatten_le {groups : List (List ℤ)}
    (h : ∀ group ∈ groups, (∀ size ∈ group, 0 ≤ size) ∧ group.sum ≤ B) :
    (packAll B s groups.flatten).count ≤ s.count + groups.length := by
  induction groups generalizing s with
  | nil => exact Nat.le_refl _
  | cons group groups ih =>
    rw [List.flatten_cons, packAll_append, List.length_cons]
    obtain ⟨hgroup, hsum⟩ := h group List.mem_cons_self
    have hfirst := count_packAll_le (s := s) hgroup hsum
    have hrest := ih (s := packAll B s group) fun g hg => h g (List.mem_cons_of_mem _ hg)
    omega

/-- The blocks that are opened, of which the last one has what is left. -/
theorem exists_groups (h : ∀ size ∈ sizes, 0 < size ∧ size ≤ B) :
    ∃ groups : List (List ℤ), groups.flatten = sizes ∧
      groups.length = (packAll B start sizes).count ∧ (∀ group ∈ groups, group.sum ≤ B) ∧
      (0 < (packAll B start sizes).left → ∃ init last, groups = init ++ [last] ∧
        last.sum = B - (packAll B start sizes).left) := by
  induction sizes using List.reverseRecOn with
  | nil => exact ⟨[], rfl, rfl, by simp, fun hleft => absurd hleft (Int.lt_irrefl 0)⟩
  | append_singleton sizes size ih =>
    obtain ⟨hpos, hle⟩ := h size (List.mem_append_right _ (List.mem_singleton_self _))
    obtain ⟨groups, hflatten, hlength, hsums, hlast⟩ :=
      ih fun n hn => h n (List.mem_append_left _ hn)
    rw [packAll_append, packAll_cons, packAll_nil]
    by_cases hless : (packAll B start sizes).left < size
    · have hpack : pack B (packAll B start sizes) size =
          ⟨(packAll B start sizes).count + 1, B - size⟩ := if_pos hless
      rw [hpack]
      refine ⟨groups ++ [[size]], by simp [hflatten], by simp [hlength], fun g hg => ?_,
        fun _ => ⟨groups, [size], rfl, by simp⟩⟩
      rcases List.mem_append.mp hg with hg | hg
      · exact hsums g hg
      · rw [List.mem_singleton.mp hg]
        simpa using hle
    · have hpack : pack B (packAll B start sizes) size =
          ⟨(packAll B start sizes).count, (packAll B start sizes).left - size⟩ := if_neg hless
      rw [hpack]
      obtain ⟨init, last, rfl, hsum⟩ := hlast (by omega)
      have hgrown : (last ++ [size]).sum = B - ((packAll B start sizes).left - size) := by
        rw [List.sum_append, hsum, List.sum_singleton]
        omega
      refine ⟨init ++ [last ++ [size]], by simp [← hflatten], by simpa using hlength,
        fun g hg => ?_, fun _ => ⟨init, last ++ [size], rfl, hgrown⟩⟩
      rcases List.mem_append.mp hg with hg | hg
      · exact hsums g (List.mem_append_left _ hg)
      · rw [List.mem_singleton.mp hg, hgrown]
        omega

/-- Packing in order opens as few blocks as any way to pack in order. -/
theorem count_packAll_lt_iff {M : ℤ} (h : ∀ size ∈ sizes, 0 < size ∧ size ≤ B) :
    ((packAll B start sizes).count : ℤ) < M ↔ FitsBelow B M sizes := by
  constructor
  · intro hlt
    obtain ⟨groups, hflatten, hlength, hsums, -⟩ := exists_groups h
    exact ⟨groups, hflatten, by rw [hlength]; exact hlt, hsums⟩
  · rintro ⟨groups, rfl, hlength, hsums⟩
    have hle := count_packAll_flatten_le (s := start) fun group hgroup =>
      ⟨fun size hsize => Int.le_of_lt (h size (List.mem_flatten.mpr ⟨group, hgroup, hsize⟩)).1,
        hsums group hgroup⟩
    have hzero : start.count = 0 := rfl
    omega

end

end Packing
