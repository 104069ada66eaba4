import Mathlib.Data.List.Basic
import Mathlib.Data.List.Nodup

/-! Least-recently-used order: a bounded list of keys, most recent first, and the history of
uses that it summarises. -/
namespace Recency

variable {K : Type*} [BEq K] [LawfulBEq K] {history l l' : List K} {k : K} {capacity : ℕ}

/-- Each key was used, and more recently than the keys after it. The history runs from the
latest use back. -/
structure Ordered (history l : List K) : Prop where
  mem : ∀ k ∈ l, k ∈ history
  latest : l.Pairwise fun x y => history.idxOf x < history.idxOf y

omit [LawfulBEq K] in
theorem Ordered.nil : Ordered history [] := ⟨by simp, List.Pairwise.nil⟩

/-- A key used now goes in front of what stays of the others. -/
theorem Ordered.use (h : Ordered history l) (hsub : l'.Sublist l) (hk : k ∉ l') :
    Ordered (k :: history) (k :: l') := by
  have hidx : ∀ x ∈ l', (k :: history).idxOf x = history.idxOf x + 1 := by
    intro x hx
    apply List.idxOf_cons_ne
    rintro rfl
    exact hk hx
  constructor
  · intro x hx
    rcases List.mem_cons.mp hx with rfl | hx
    · exact List.mem_cons_self
    · exact List.mem_cons_of_mem _ (h.mem x (hsub.subset hx))
  · refine List.pairwise_cons.mpr ⟨fun x hx => ?_, ?_⟩
    · rw [List.idxOf_cons_self, hidx x hx]
      omega
    · refine (h.latest.sublist hsub).imp_of_mem fun {x y} hx hy hxy => ?_
      rw [hidx x hx, hidx y hy]
      omega

omit [LawfulBEq K] in
/-- The last key is the one whose last use is the oldest. -/
theorem Ordered.oldest (h : Ordered history (l ++ [k])) {x : K} (hx : x ∈ l) :
    history.idxOf x < history.idxOf k :=
  (List.pairwise_append.mp h.latest).2.2 x hx k (List.mem_singleton_self k)

/-- Use a key: what the list becomes, and the key that falls out. -/
def store (capacity : ℕ) (k : K) (l : List K) : List K × Option K :=
  if k ∈ l then (k :: l.erase k, none)
  else if l.length < capacity then (k :: l, none)
  else if capacity = 0 then (l, none)
  else (k :: l.dropLast, l.getLast?)

/-- A use leaves the key in the list, unless there is no room for any. -/
theorem mem_store (hpos : 0 < capacity) (k : K) (l : List K) : k ∈ (store capacity k l).1 := by
  unfold Recency.store
  split_ifs with hk hroom hzero
  · exact List.mem_cons_self
  · exact List.mem_cons_self
  · omega
  · exact List.mem_cons_self

/-- A key is still there after a use, or is the one that falls out. -/
theorem mem_store_or (k : K) {x : K} (hx : x ∈ l) :
    x ∈ (store capacity k l).1 ∨ (store capacity k l).2 = some x := by
  unfold Recency.store
  split_ifs with hk hroom hzero
  · left
    by_cases hxk : x = k
    · exact hxk ▸ List.mem_cons_self
    · exact List.mem_cons_of_mem _ ((List.mem_erase_of_ne hxk).mpr hx)
  · exact .inl (List.mem_cons_of_mem _ hx)
  · exact .inl hx
  · obtain ⟨pre, y, rfl⟩ := (List.eq_nil_or_concat' l).resolve_left (List.ne_nil_of_mem hx)
    rcases List.mem_append.mp hx with hpre | hlast
    · left
      rw [List.dropLast_concat]
      exact List.mem_cons_of_mem _ hpre
    · right
      rw [List.mem_singleton.mp hlast, List.getLast?_concat]

theorem Ordered.store (h : Ordered history l) (hnd : l.Nodup) (hl : l.length ≤ capacity) (k : K) :
    Ordered (k :: history) (store capacity k l).1 := by
  unfold Recency.store
  split_ifs with hk hroom hzero
  · exact h.use List.erase_sublist hnd.not_mem_erase
  · exact h.use (List.Sublist.refl l) hk
  · have hnil : l = [] := List.length_eq_zero_iff.mp (by omega)
    rw [hnil]
    exact Ordered.nil
  · exact h.use l.dropLast_sublist fun hmem => hk (l.dropLast_sublist.subset hmem)

end Recency
