import Mathlib.Control.Monad.Basic

/-! Computations that do the same on a state and on its image. -/
namespace StateFrame

variable {σ ε α β γ : Type}

/-- On the states in question, the computation commutes with a map of the states. -/
structure Commutes (φ : σ → σ) (valid : σ → Prop) (m : StateT σ (Except ε) α) : Prop where
  keeps {s t : σ} {a : α} : valid s → m.run s = .ok (a, t) → valid t
  run {s : σ} : valid s → m.run (φ s) = (m.run s).map fun r => (r.1, φ r.2)

namespace Commutes

variable {φ : σ → σ} {valid : σ → Prop} {m m' : StateT σ (Except ε) α}
  {f : α → StateT σ (Except ε) β}

theorem pure (a : α) : Commutes φ valid (Pure.pure a : StateT σ (Except ε) α) where
  keeps := by
    intro s t b hvalid hrun
    cases hrun
    exact hvalid
  run := fun _ => rfl

theorem throw (e : ε) : Commutes φ valid (MonadExcept.throw e : StateT σ (Except ε) α) where
  keeps := by
    intro s t a _ hrun
    cases hrun
  run := fun _ => rfl

theorem update {change : σ → σ} (hkeeps : ∀ s, valid s → valid (change s))
    (h : ∀ s, valid s → change (φ s) = φ (change s)) :
    Commutes φ valid (modify change : StateT σ (Except ε) PUnit) where
  keeps := by
    intro s t a hvalid hrun
    cases hrun
    exact hkeeps s hvalid
  run := by
    intro s hvalid
    show Except.ok (PUnit.unit, change (φ s)) = Except.ok (PUnit.unit, φ (change s))
    rw [h s hvalid]

theorem bind (hm : Commutes φ valid m) (hf : ∀ a, Commutes φ valid (f a)) :
    Commutes φ valid (m >>= f) where
  keeps := by
    intro s t b hvalid hrun
    rw [StateT.run_bind] at hrun
    cases hs : m.run s with
    | error e =>
      rw [hs] at hrun
      cases hrun
    | ok r =>
      rw [hs] at hrun
      exact (hf r.1).keeps (hm.keeps hvalid hs) hrun
  run := by
    intro s hvalid
    rw [StateT.run_bind, StateT.run_bind, hm.run hvalid]
    cases hs : m.run s with
    | error e => rfl
    | ok r => exact (hf r.1).run (hm.keeps hvalid hs)

theorem read {k : σ → StateT σ (Except ε) β} (hk : ∀ s, valid s → k (φ s) = k s)
    (hread : ∀ s, valid s → Commutes φ valid (k s)) : Commutes φ valid (get >>= k) where
  keeps := fun {s} {_} {_} hvalid hrun => (hread s hvalid).keeps hvalid hrun
  run := by
    intro s hvalid
    show (k (φ s)).run (φ s) = _
    rw [hk s hvalid]
    exact (hread s hvalid).run hvalid

theorem ite {p : Prop} [Decidable p] (h : Commutes φ valid m) (h' : Commutes φ valid m') :
    Commutes φ valid (if p then m else m') := by
  split_ifs
  · exact h
  · exact h'

theorem forM {xs : List γ} {g : γ → StateT σ (Except ε) PUnit}
    (hg : ∀ x, Commutes φ valid (g x)) : Commutes φ valid (xs.forM g) := by
  induction xs with
  | nil => exact pure PUnit.unit
  | cons x xs ih => exact (hg x).bind fun _ => ih

theorem mapM {xs : List γ} {g : γ → StateT σ (Except ε) α} (hg : ∀ x, Commutes φ valid (g x)) :
    Commutes φ valid (xs.mapM g) := by
  induction xs with
  | nil =>
    rw [List.mapM_nil]
    exact pure []
  | cons x xs ih =>
    rw [List.mapM_cons]
    exact (hg x).bind fun a => ih.bind fun as => pure _

end Commutes

end StateFrame
