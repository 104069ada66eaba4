import Mathlib.Data.List.Basic
import ZoweCommon.Lib.Allocation

/-! Bytes of memory, in which pointers are stored, and chains of such pointers. -/
namespace PointerMemory

open Allocation

inductive Memval
  | byte (value : BitVec 8)
  | part (pointer : ℤ) (index : ℕ)
  deriving DecidableEq

abbrev Memory := ℤ → Memval

/-- A pointer of a number of bytes. -/
def store (k : ℕ) (m : Memory) (a pointer : ℤ) : Memory := fun i =>
  if a ≤ i ∧ i < a + k then .part pointer (i - a).toNat else m i

/-- Only bytes that are all of one pointer are a pointer. -/
def load (k : ℕ) (m : Memory) (a : ℤ) : Option ℤ :=
  match m a with
  | .part pointer _ => if ∀ j < k, m (a + j) = .part pointer j then some pointer else none
  | .byte _ => none

/-- A chain of elements, each of which starts with the pointer to the next. -/
def Chained (k : ℕ) (m : Memory) : ℤ → List ℤ → Prop
  | a, [] => a = 0
  | a, x :: xs => a = x ∧ x ≠ 0 ∧ ∃ next, load k m x = some next ∧ Chained k m next xs

def AgreeOn (m m' : Memory) (e : Extent) : Prop := ∀ i, e.start ≤ i → i < e.stop → m i = m' i

section

variable {k : ℕ} {m m' : Memory} {a x pointer : ℤ} {xs : List ℤ} {e f : Extent}

theorem load_store (hk : 0 < k) : load k (store k m a pointer) a = some pointer := by
  have hpart : ∀ j < k, store k m a pointer (a + j) = .part pointer j := by
    intro j hj
    unfold store
    rw [if_pos ⟨by omega, by omega⟩]
    congr 1
    omega
  have hfirst := hpart 0 hk
  rw [Int.natCast_zero, Int.add_zero] at hfirst
  unfold load
  rw [hfirst]
  exact if_pos hpart

theorem load_congr (hk : 0 < k) (h : AgreeOn m m' ⟨x, k⟩) : load k m' x = load k m x := by
  have hsame : ∀ j < k, m (x + j) = m' (x + j) := by
    intro j hj
    refine h _ ?_ ?_
    · dsimp only
      omega
    · unfold Extent.stop
      dsimp only
      omega
  have hfirst := hsame 0 hk
  rw [Int.natCast_zero, Int.add_zero] at hfirst
  unfold load
  rw [hfirst]
  split
  · next pointer _ _ =>
    have hiff : (∀ j < k, m' (x + j) = .part pointer j) ↔ ∀ j < k, m (x + j) = .part pointer j :=
      forall₂_congr fun j hj => by rw [hsame j hj]
    rw [if_congr hiff rfl rfl]
  · rfl

theorem agreeOn_store (h : Extent.Apart ⟨a, k⟩ e) : AgreeOn m (store k m a pointer) e := by
  intro i hi hi'
  unfold store
  refine (if_neg ?_).symm
  unfold Extent.Apart Extent.stop at h
  unfold Extent.stop at hi'
  dsimp only at h
  omega

theorem AgreeOn.inside (h : AgreeOn m m' e) (hf : f.Inside e) : AgreeOn m m' f :=
  fun i hi hi' => h i (Int.le_trans hf.1 hi) (Int.lt_of_lt_of_le hi' hf.2)

/-- A chain is the same where the words of its elements are. -/
theorem Chained.congr (hk : 0 < k) (h : Chained k m a xs) (hsame : ∀ x ∈ xs, AgreeOn m m' ⟨x, k⟩) :
    Chained k m' a xs := by
  induction xs generalizing a with
  | nil => exact h
  | cons x xs ih =>
    obtain ⟨rfl, hne, next, hload, hrest⟩ := h
    refine ⟨rfl, hne, next, ?_, ih hrest fun y hy => hsame y (List.mem_cons_of_mem _ hy)⟩
    rw [load_congr hk (hsame a List.mem_cons_self), hload]

/-- A new first element. -/
theorem Chained.store (hk : 0 < k) (h : Chained k m a xs) (hx : x ≠ 0)
    (hapart : ∀ y ∈ xs, Extent.Apart ⟨x, k⟩ ⟨y, k⟩) :
    Chained k (PointerMemory.store k m x a) x (x :: xs) :=
  ⟨rfl, hx, a, load_store hk, h.congr hk fun y hy => agreeOn_store (hapart y hy)⟩

theorem Chained.ne_nil_iff (h : Chained k m a xs) : xs ≠ [] ↔ a ≠ 0 := by
  cases xs with
  | nil => exact iff_of_false (fun hne => hne rfl) fun hne => hne h
  | cons x xs =>
    obtain ⟨rfl, hx, -⟩ := h
    exact iff_of_true (List.cons_ne_nil _ _) hx

end

end PointerMemory
