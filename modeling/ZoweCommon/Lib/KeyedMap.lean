import Mathlib.Data.Finset.Basic
import Mathlib.Data.Finset.Card
import Mathlib.Data.Setoid.Basic

/-! Finite maps whose keys are compared by an equivalence relation. -/

variable {K W : Type*} {s : Setoid K}

/-- Finitely many entries, no two of them with equal keys. -/
structure KeyedMap (s : Setoid K) (W : Type*) where
  entries : Finset (K × W)
  distinct : ∀ e ∈ entries, ∀ f ∈ entries, s.r e.1 f.1 → e = f

namespace KeyedMap

variable {m : KeyedMap s W} {k : K} {w : W} {e : K × W}

@[ext] theorem ext {m m' : KeyedMap s W} (h : ∀ e, e ∈ m.entries ↔ e ∈ m'.entries) : m = m' := by
  cases m
  cases m'
  congr
  exact Finset.ext h

def empty (s : Setoid K) : KeyedMap s W where
  entries := ∅
  distinct := by simp

@[simp] theorem entries_empty : (empty s : KeyedMap s W).entries = ∅ := rfl

noncomputable section

open Classical

/-- The entry with a key equal to `k`. -/
def find (m : KeyedMap s W) (k : K) : Option (K × W) :=
  if h : ∃ e ∈ m.entries, s.r e.1 k then some h.choose else none

theorem find_eq_some_iff : m.find k = some e ↔ e ∈ m.entries ∧ s.r e.1 k := by
  unfold find
  split_ifs with h
  · have hc := h.choose_spec
    rw [Option.some_inj]
    constructor
    · rintro rfl
      exact hc
    · rintro ⟨he, hek⟩
      exact m.distinct _ hc.1 _ he (s.trans hc.2 (s.symm hek))
  · simp only [false_iff]
    rintro ⟨he, hek⟩
    exact h ⟨e, he, hek⟩

theorem find_eq_none_iff : m.find k = none ↔ ∀ e ∈ m.entries, ¬s.r e.1 k := by
  unfold find
  split_ifs with h
  · simp only [false_iff, not_forall, not_not]
    obtain ⟨e, he, hek⟩ := h
    exact ⟨e, he, hek⟩
  · simpa using h

/-- Drop the entries that satisfy `p`. -/
def prune (m : KeyedMap s W) (p : K × W → Prop) : KeyedMap s W where
  entries := m.entries.filter fun e => ¬p e
  distinct e he f hf hef :=
    m.distinct e (Finset.mem_filter.mp he).1 f (Finset.mem_filter.mp hf).1 hef

@[simp] theorem mem_prune {p : K × W → Prop} : e ∈ (m.prune p).entries ↔ e ∈ m.entries ∧ ¬p e :=
  Finset.mem_filter

def erase (m : KeyedMap s W) (k : K) : KeyedMap s W := m.prune fun e => s.r e.1 k

@[simp] theorem mem_erase : e ∈ (m.erase k).entries ↔ e ∈ m.entries ∧ ¬s.r e.1 k := mem_prune

/-- The entry for `k` becomes `w`, filed under `k` itself. -/
def put (m : KeyedMap s W) (k : K) (w : W) : KeyedMap s W where
  entries := insert (k, w) (m.erase k).entries
  distinct := by
    intro e he f hf hef
    rcases Finset.mem_insert.mp he with rfl | he
    · rcases Finset.mem_insert.mp hf with rfl | hf
      · rfl
      · exact absurd (s.symm hef) (mem_erase.mp hf).2
    · rcases Finset.mem_insert.mp hf with rfl | hf
      · exact absurd hef (mem_erase.mp he).2
      · exact (m.erase k).distinct e he f hf hef

@[simp] theorem mem_put :
    e ∈ (m.put k w).entries ↔ e = (k, w) ∨ e ∈ m.entries ∧ ¬s.r e.1 k := by
  simp [put]

theorem find_put_of_rel {k' : K} (h : s.r k k') : (m.put k w).find k' = some (k, w) :=
  find_eq_some_iff.mpr ⟨mem_put.mpr (.inl rfl), h⟩

theorem find_put_of_not_rel {k' : K} (h : ¬s.r k k') : (m.put k w).find k' = m.find k' := by
  cases hf : m.find k' with
  | none =>
    have hnone := find_eq_none_iff.mp hf
    apply find_eq_none_iff.mpr
    intro e he
    obtain he | ⟨he, -⟩ := mem_put.mp he
    · rwa [he]
    · exact hnone e he
  | some e =>
    obtain ⟨he, hek⟩ := find_eq_some_iff.mp hf
    apply find_eq_some_iff.mpr
    exact ⟨mem_put.mpr (.inr ⟨he, fun h' => h (s.trans (s.symm h') hek)⟩), hek⟩

theorem find_erase_of_not_rel {k' : K} (h : ¬s.r k k') : (m.erase k).find k' = m.find k' := by
  cases hf : m.find k' with
  | none =>
    have hnone := find_eq_none_iff.mp hf
    exact find_eq_none_iff.mpr fun e he => hnone e (mem_erase.mp he).1
  | some e =>
    obtain ⟨he, hek⟩ := find_eq_some_iff.mp hf
    apply find_eq_some_iff.mpr
    exact ⟨mem_erase.mpr ⟨he, fun h' => h (s.trans (s.symm h') hek)⟩, hek⟩

@[simp] theorem find_empty : (empty s : KeyedMap s W).find k = none :=
  find_eq_none_iff.mpr (by simp)

def card (m : KeyedMap s W) : ℕ := m.entries.card

/-- Counting the entries that satisfy `p` along any enumeration of the map. -/
theorem countP_eq_card {l : List (K × W)} (hnd : l.Nodup) (hl : ∀ e, e ∈ l ↔ e ∈ m.entries)
    (p : K × W → Bool) : l.countP p = (m.entries.filter fun e => p e = true).card := by
  have hfin : l.toFinset = m.entries := by
    ext e
    rw [List.mem_toFinset, hl]
  rw [List.countP_eq_length_filter, ← hfin, ← List.toFinset_filter,
    List.toFinset_card_of_nodup (hnd.filter _)]

theorem length_eq_card {l : List (K × W)} (hnd : l.Nodup) (hl : ∀ e, e ∈ l ↔ e ∈ m.entries) :
    l.length = m.card := by
  simpa [card] using countP_eq_card hnd hl fun _ => true

end

end KeyedMap
