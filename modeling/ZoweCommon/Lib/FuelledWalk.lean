import Mathlib.Data.Fintype.Lattice
import Mathlib.Data.Set.Finite.Lattice
import Mathlib.Logic.Relation
import Mathlib.Order.WellFounded

/-! Recursions down a graph, whose depth is what the fuel bounds. -/
namespace FuelledWalk

open Relation

variable {α : Type} {p : α → Prop} {r : α → α → Prop} {a b : α} {fuel fuel' : ℕ}

/-- The recursion from a node ends: the node is good, and so it ends from each of the next ones. -/
def Walks (p : α → Prop) (r : α → α → Prop) : ℕ → α → Prop
  | 0, _ => False
  | fuel + 1, a => p a ∧ ∀ b, r a b → Walks p r fuel b

theorem Walks.mono (h : Walks p r fuel a) (hle : fuel ≤ fuel') : Walks p r fuel' a := by
  induction fuel generalizing fuel' a with
  | zero => exact h.elim
  | succ fuel ih =>
    obtain ⟨fuel', rfl⟩ : ∃ n, fuel' = n + 1 := Nat.exists_eq_succ_of_ne_zero (by omega)
    exact ⟨h.1, fun b hb => ih (h.2 b hb) (by omega)⟩

theorem Walks.holds (h : Walks p r fuel a) : p a := by
  cases fuel with
  | zero => exact h.elim
  | succ fuel => exact h.1

theorem Walks.next (h : Walks p r fuel a) (hb : r a b) :
    ∃ fuel' < fuel, Walks p r fuel' b := by
  cases fuel with
  | zero => exact h.elim
  | succ fuel => exact ⟨fuel, Nat.lt_succ_self fuel, h.2 b hb⟩

theorem Walks.later (h : Walks p r fuel a) (hb : TransGen r a b) :
    ∃ fuel' < fuel, Walks p r fuel' b := by
  induction hb with
  | single hab => exact h.next hab
  | tail _ hbc ih =>
    obtain ⟨fuel', hlt, hb⟩ := ih
    obtain ⟨fuel'', hlt', hc⟩ := hb.next hbc
    exact ⟨fuel'', hlt'.trans hlt, hc⟩

theorem Walks.reaches (h : Walks p r fuel a) (hb : ReflTransGen r a b) :
    ∃ fuel', Walks p r fuel' b := by
  rcases reflTransGen_iff_eq_or_transGen.mp hb with rfl | hb
  · exact ⟨fuel, h⟩
  · obtain ⟨fuel', -, hb⟩ := h.later hb
    exact ⟨fuel', hb⟩

/-- On a cycle the fuel would have to get less for ever. -/
theorem Walks.not_cycle (h : Walks p r fuel a) : ¬ TransGen r a a := by
  intro hcycle
  induction fuel using Nat.strong_induction_on with
  | _ fuel ih =>
    obtain ⟨fuel', hlt, h'⟩ := h.later hcycle
    exact ih fuel' hlt h'

/-- Where finitely many nodes are reached, and no cycle, their order is well-founded. -/
theorem exists_walks (hfinite : {b | ReflTransGen r a b}.Finite)
    (h : ∀ b, ReflTransGen r a b → p b ∧ ¬ TransGen r b b) : ∃ fuel, Walks p r fuel a := by
  have : Finite {b // ReflTransGen r a b} := hfinite
  have hgen : ∀ x y : {b // ReflTransGen r a b},
      TransGen (fun x y : {b // ReflTransGen r a b} => r y x) x y → TransGen r y x := by
    intro x y hxy
    induction hxy with
    | single hxy => exact .single hxy
    | tail _ hyz ih => exact .head hyz ih
  have hirrefl : Std.Irrefl (TransGen fun x y : {b // ReflTransGen r a b} => r y x) :=
    ⟨fun x hx => (h x x.2).2 (hgen x x hx)⟩
  have hwf : WellFounded (TransGen fun x y : {b // ReflTransGen r a b} => r y x) :=
    Finite.wellFounded_of_trans_of_irrefl _
  have hall : ∀ x : {b // ReflTransGen r a b}, ∃ fuel, Walks p r fuel x := by
    intro x
    induction x using hwf.induction with
    | _ x ih =>
      have hnext : ∀ y : {b // ReflTransGen r a b}, ∃ fuel, r x y → Walks p r fuel y := by
        intro y
        by_cases hxy : r x y
        · obtain ⟨fuel, hy⟩ := ih y (.single hxy)
          exact ⟨fuel, fun _ => hy⟩
        · exact ⟨0, fun hr => absurd hr hxy⟩
      choose fuels hfuels using hnext
      obtain ⟨bound, hbound⟩ := (Set.finite_range fuels).bddAbove
      refine ⟨bound + 1, (h x x.2).1, fun b hb => ?_⟩
      exact (hfuels ⟨b, x.2.tail hb⟩ hb).mono (hbound ⟨_, rfl⟩)
  exact hall ⟨a, .refl⟩

/-- The recursion ends exactly when everything that it reaches is good and on no cycle. -/
theorem exists_walks_iff (hfinite : {b | ReflTransGen r a b}.Finite) :
    (∃ fuel, Walks p r fuel a) ↔ ∀ b, ReflTransGen r a b → p b ∧ ¬ TransGen r b b := by
  refine ⟨fun ⟨fuel, h⟩ b hb => ?_, exists_walks hfinite⟩
  obtain ⟨fuel', hwalk⟩ := h.reaches hb
  exact ⟨hwalk.holds, hwalk.not_cycle⟩

end FuelledWalk
