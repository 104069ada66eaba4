import Mathlib.Data.List.Nodup
import Mathlib.Data.Int.Notation

/-! Extents of storage, and what gives them out and takes them back. -/
namespace Allocation

structure Extent where
  start : ℤ
  size : ℤ
  deriving DecidableEq

namespace Extent

def stop (e : Extent) : ℤ := e.start + e.size

def Apart (e f : Extent) : Prop := e.stop ≤ f.start ∨ f.stop ≤ e.start

instance (e f : Extent) : Decidable (e.Apart f) :=
  inferInstanceAs (Decidable (e.stop ≤ f.start ∨ f.stop ≤ e.start))

def Inside (e f : Extent) : Prop := f.start ≤ e.start ∧ e.stop ≤ f.stop

instance (e f : Extent) : Decidable (e.Inside f) :=
  inferInstanceAs (Decidable (f.start ≤ e.start ∧ e.stop ≤ f.stop))

variable {e e' f f' g : Extent}

theorem Apart.symm (h : e.Apart f) : f.Apart e := Or.symm h

theorem Inside.refl (e : Extent) : e.Inside e := ⟨Int.le_refl _, Int.le_refl _⟩

theorem Inside.trans (h : e.Inside f) (h' : f.Inside g) : e.Inside g :=
  ⟨Int.le_trans h'.1 h.1, Int.le_trans h.2 h'.2⟩

theorem Apart.inside (h : e.Apart f) (he : e'.Inside e) (hf : f'.Inside f) : e'.Apart f' := by
  rcases h with h | h
  · exact .inl (Int.le_trans he.2 (Int.le_trans h hf.1))
  · exact .inr (Int.le_trans hf.2 (Int.le_trans h he.1))

end Extent

/-- What is given out does not overlap, and what is taken back is known by where it starts. -/
structure Allocator (σ : Type) where
  given : σ → List Extent
  acquire : σ → ℤ → Option ℤ × σ
  release : σ → ℤ → σ
  nodup_given : ∀ s, ((given s).map Extent.start).Nodup
  acquire_some : ∀ {s s' n a}, acquire s n = (some a, s') →
    0 < a ∧ 0 ≤ n ∧ (∀ e ∈ given s, Extent.Apart ⟨a, n⟩ e) ∧ given s' = ⟨a, n⟩ :: given s
  acquire_none : ∀ {s s' n}, acquire s n = (none, s') → given s' = given s
  given_release : ∀ s a, given (release s a) = (given s).eraseP fun e => e.start = a

theorem eraseP_start {e : Extent} {given rest : List Extent} (hgiven : (e :: rest).Perm given)
    (hnodup : (given.map Extent.start).Nodup) :
    (given.eraseP fun f => f.start = e.start).Perm rest := by
  have hpairwise : given.Pairwise fun f g =>
      f.start = e.start → g.start = e.start → False := by
    rw [List.nodup_iff_pairwise_ne, List.pairwise_map] at hnodup
    exact hnodup.imp fun hne hf hg => hne (hf.trans hg.symm)
  have hperm := List.Perm.eraseP (fun f => decide (f.start = e.start))
    (by simpa using hpairwise) hgiven.symm
  simpa using hperm

namespace Allocator

variable {σ : Type} {A : Allocator σ} {s s' : σ} {n a : ℤ} {e : Extent} {rest : List Extent}

/-- What has been given out can be taken back, and only it is. -/
theorem given_release_of_perm (hgiven : (e :: rest).Perm (A.given s)) :
    (A.given (A.release s e.start)).Perm rest := by
  rw [A.given_release]
  exact eraseP_start hgiven (A.nodup_given s)

end Allocator

/-- Storage that is given out from the top. -/
structure Rising where
  extents : List Extent
  top : ℤ
  top_pos : 0 < top
  below : ∀ e ∈ extents, e.start < top ∧ e.stop ≤ top
  nodup : (extents.map Extent.start).Nodup

namespace Rising

def empty : Rising := ⟨[], 1, by decide, fun _ he => absurd he List.not_mem_nil, List.nodup_nil⟩

def acquire (s : Rising) (n : ℤ) : Option ℤ × Rising :=
  if hn : 0 ≤ n then
    (some s.top,
      { extents := ⟨s.top, n⟩ :: s.extents
        top := s.top + n + 1
        top_pos := by have := s.top_pos; omega
        below := by
          intro e he
          rcases List.mem_cons.mp he with rfl | he
          · exact ⟨by dsimp only; omega, by unfold Extent.stop; dsimp only; omega⟩
          · have := s.below e he
            omega
        nodup := by
          rw [List.map_cons, List.nodup_cons]
          refine ⟨fun hmem => ?_, s.nodup⟩
          obtain ⟨e, he, hstart⟩ := List.mem_map.mp hmem
          exact absurd hstart (Int.ne_of_lt (s.below e he).1) })
  else (none, s)

def release (s : Rising) (a : ℤ) : Rising where
  extents := s.extents.eraseP fun e => e.start = a
  top := s.top
  top_pos := s.top_pos
  below e he := s.below e (List.mem_of_mem_eraseP he)
  nodup := s.nodup.sublist ((List.eraseP_sublist).map _)

def allocator : Allocator Rising where
  given := extents
  acquire := acquire
  release := release
  nodup_given := nodup
  acquire_some {s s' n a} h := by
    unfold acquire at h
    split at h
    · cases h
      exact ⟨s.top_pos, by assumption, fun e he => .inr (s.below e he).2, rfl⟩
    · cases h
  acquire_none {s s' n} h := by
    unfold acquire at h
    split at h
    · cases h
    · cases h
      rfl
  given_release _ _ := rfl

end Rising
end Allocation
