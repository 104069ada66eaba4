import Mathlib.Data.List.Forall2

/-! What running a piece of the C code can come to. -/
namespace ZoweCommon

/-- Why a run has no value: it never ends, or the language gives it no meaning. -/
inductive Fault
  | nonTermination
  | undefinedBehaviour
  deriving DecidableEq, Repr

/-- The value a run returns, or the fault it ends in. -/
abbrev Exec (α : Type*) := Except Fault α

namespace Exec

universe u

variable {α β : Type u}

@[simp] theorem ok_bind (a : α) (f : α → Exec β) : (Except.ok a >>= f) = f a := rfl

@[simp] theorem error_bind (e : Fault) (f : α → Exec β) :
    ((Except.error e : Exec α) >>= f) = Except.error e := rfl

@[simp] theorem pure_eq_ok (a : α) : (pure a : Exec α) = Except.ok a := rfl

@[simp] theorem ok_map (a : α) (f : α → β) : (f <$> (Except.ok a : Exec α)) = Except.ok (f a) := rfl

theorem bind_eq_ok {x : Exec α} {f : α → Exec β} {b : β} :
    (x >>= f) = Except.ok b ↔ ∃ a, x = Except.ok a ∧ f a = Except.ok b := by
  cases x <;> simp

theorem bind_eq_error {x : Exec α} {f : α → Exec β} {fault : Fault} (h : x = Except.error fault) :
    (x >>= f) = Except.error fault := by
  rw [h]
  rfl

theorem bind_eq_error_iff {x : Exec α} {f : α → Exec β} {fault : Fault} :
    (x >>= f) = Except.error fault ↔
      x = Except.error fault ∨ ∃ a, x = Except.ok a ∧ f a = Except.error fault := by
  cases x <;> simp

/-- A run that ends, if perhaps without meaning. -/
def Ends (x : Exec α) : Prop := x ≠ Except.error .nonTermination

theorem Ends.ok (a : α) : Ends (Except.ok a : Exec α) := nofun

theorem Ends.bind {x : Exec α} {f : α → Exec β} (hx : Ends x) (hf : ∀ a, x = .ok a → Ends (f a)) :
    Ends (x >>= f) := by
  cases x with
  | error fault => exact fun h => hx (congrArg Except.error (Except.error.inj h))
  | ok a => exact hf a rfl

@[simp] theorem ends_pure (a : α) : Ends (pure a : Exec α) := .ok a

@[simp] theorem ends_undefinedBehaviour : Ends (Except.error .undefinedBehaviour : Exec α) := nofun

@[simp] theorem ends_throw : Ends (throw .undefinedBehaviour : Exec α) := nofun

theorem Ends.seq {x : Exec α} {f : α → Exec β} (hx : Ends x) (hf : ∀ a, Ends (f a)) :
    Ends (x >>= f) :=
  hx.bind fun a _ => hf a

theorem Ends.ite {p : Prop} [Decidable p] {x y : Exec α} (hx : Ends x) (hy : Ends y) :
    Ends (if p then x else y) := by
  split
  · exact hx
  · exact hy

/-- What holds of the value of a run that returns one. -/
def Returns (x : Exec α) (p : α → Prop) : Prop := ∀ a, x = .ok a → p a

theorem Returns.ok {a : α} {p : α → Prop} (h : p a) : Returns (.ok a) p := by
  intro b hb
  cases hb
  exact h

theorem Returns.error (fault : Fault) (p : α → Prop) : Returns (.error fault) p := nofun

theorem Returns.bind {x : Exec α} {f : α → Exec β} {q : α → Prop} {p : β → Prop}
    (hx : Returns x q) (hf : ∀ a, q a → Returns (f a) p) : Returns (x >>= f) p := by
  intro b hb
  obtain ⟨a, ha, hfa⟩ := bind_eq_ok.mp hb
  exact hf a (hx a ha) b hfa

theorem Returns.seq {x : Exec α} {f : α → Exec β} {p : β → Prop} (hf : ∀ a, Returns (f a) p) :
    Returns (x >>= f) p :=
  Returns.bind (q := fun _ => True) (fun _ _ => trivial) fun a _ => hf a

theorem Returns.ite {c : Prop} [Decidable c] {x y : Exec α} {p : α → Prop} (hx : Returns x p)
    (hy : Returns y p) : Returns (if c then x else y) p := by
  split
  · exact hx
  · exact hy

/-- A run that ends, and what holds of its value if it has one. -/
def EndsWith (x : Exec α) (p : α → Prop) : Prop := Ends x ∧ Returns x p

theorem EndsWith.ok {a : α} {p : α → Prop} (h : p a) : EndsWith (.ok a) p := ⟨.ok a, .ok h⟩

theorem EndsWith.bind {x : Exec α} {f : α → Exec β} {q : α → Prop} {p : β → Prop}
    (hx : EndsWith x q) (hf : ∀ a, q a → EndsWith (f a) p) : EndsWith (x >>= f) p :=
  ⟨hx.1.bind fun a ha => (hf a (hx.2 a ha)).1, hx.2.bind fun a ha => (hf a ha).2⟩

theorem EndsWith.mono {x : Exec α} {q p : α → Prop} (hx : EndsWith x q) (h : ∀ a, q a → p a) :
    EndsWith x p :=
  ⟨hx.1, fun a ha => h a (hx.2 a ha)⟩

/-- A run that has a meaning, if perhaps no end. -/
def HasMeaning (x : Exec α) : Prop := x ≠ Except.error .undefinedBehaviour

theorem HasMeaning.ok (a : α) : HasMeaning (Except.ok a : Exec α) := nofun

theorem HasMeaning.nonTermination : HasMeaning (Except.error .nonTermination : Exec α) := nofun

theorem HasMeaning.seq {x : Exec α} {f : α → Exec β} (hx : HasMeaning x)
    (hf : ∀ a, HasMeaning (f a)) : HasMeaning (x >>= f) := by
  cases x with
  | error fault => exact fun h => hx (congrArg Except.error (Except.error.inj h))
  | ok a => exact hf a

theorem HasMeaning.ite {p : Prop} [Decidable p] {x y : Exec α} (hx : HasMeaning x)
    (hy : HasMeaning y) : HasMeaning (if p then x else y) := by
  split
  · exact hx
  · exact hy

theorem HasMeaning.eq_ok {x : Exec α} (hmeaning : HasMeaning x) (hends : Ends x) :
    ∃ a, x = .ok a := by
  cases x with
  | ok a => exact ⟨a, rfl⟩
  | error fault =>
    cases fault with
    | nonTermination => exact absurd rfl hends
    | undefinedBehaviour => exact absurd rfl hmeaning

/-- The rule for loops over a list: what the iterations do to the items one by one, the loop
does to all of them. The invariant sees the items already done as `R` reads them. -/
theorem foldlM_ok {α β σ : Type} {R : α → β → Prop} {I : List β → σ → Prop}
    {body : σ → α → Exec σ} {xs : List α} {ys : List β} (h : List.Forall₂ R xs ys)
    (step : ∀ done x y s, y ∈ ys → R x y → I done s →
      ∃ s', body s x = .ok s' ∧ I (done ++ [y]) s') :
    ∀ {done : List β} {s : σ}, I done s → ∃ s', xs.foldlM body s = .ok s' ∧ I (done ++ ys) s' := by
  induction h with
  | nil =>
    intro done s hs
    exact ⟨s, rfl, by simpa using hs⟩
  | @cons x y xs ys hxy _ ih =>
    intro done s hs
    obtain ⟨s₁, hrun₁, hs₁⟩ := step done x y s List.mem_cons_self hxy hs
    obtain ⟨s₂, hrun₂, hs₂⟩ := ih (fun done x y s hy => step done x y s (List.mem_cons_of_mem _ hy)) hs₁
    refine ⟨s₂, ?_, by simpa using hs₂⟩
    rw [List.foldlM_cons, hrun₁, ok_bind, hrun₂]

end Exec

end ZoweCommon
