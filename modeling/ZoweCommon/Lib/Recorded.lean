import Mathlib.Logic.Basic

/-! Programs that leave a record of what they do, up to where they end or stop. -/

/-- A run of a program: its events in order, and its result or what it stops with. -/
@[ext]
structure Recorded (ε σ α : Type) where
  events : List ε
  result : Except σ α

namespace Recorded

variable {ε σ α β : Type}

protected def pure (a : α) : Recorded ε σ α := ⟨[], .ok a⟩

/-- What stops does not go on. -/
protected def bind (m : Recorded ε σ α) (f : α → Recorded ε σ β) : Recorded ε σ β :=
  match m.result with
  | .error s => ⟨m.events, .error s⟩
  | .ok a => ⟨m.events ++ (f a).events, (f a).result⟩

instance : Monad (Recorded ε σ) where
  pure := Recorded.pure
  bind := Recorded.bind

def record (e : ε) : Recorded ε σ Unit := ⟨[e], .ok ()⟩

def stop (s : σ) : Recorded ε σ α := ⟨[], .error s⟩

theorem bind_def (m : Recorded ε σ α) (f : α → Recorded ε σ β) :
    m >>= f = Recorded.bind m f := rfl

variable {m : Recorded ε σ α}

theorem bind_of_ok {a : α} (f : α → Recorded ε σ β) (h : m.result = .ok a) :
    m >>= f = ⟨m.events ++ (f a).events, (f a).result⟩ := by
  rw [bind_def, Recorded.bind, h]

theorem bind_of_error {s : σ} (f : α → Recorded ε σ β) (h : m.result = .error s) :
    m >>= f = ⟨m.events, .error s⟩ := by
  rw [bind_def, Recorded.bind, h]

protected theorem id_map (m : Recorded ε σ α) : id <$> m = m := by
  cases hm : m.result with
  | error s => exact (bind_of_error _ hm).trans (Recorded.ext rfl hm.symm)
  | ok a => exact (bind_of_ok _ hm).trans (Recorded.ext (List.append_nil _) hm.symm)

protected theorem bind_assoc {γ : Type} (m : Recorded ε σ α) (f : α → Recorded ε σ β)
    (g : β → Recorded ε σ γ) : m >>= f >>= g = m >>= fun a => f a >>= g := by
  cases hm : m.result with
  | error s => rw [bind_of_error f hm, bind_of_error _ hm, bind_of_error _ rfl]
  | ok a =>
    rw [bind_of_ok f hm, bind_of_ok _ hm]
    cases hf : (f a).result with
    | error s => rw [bind_of_error g rfl, bind_of_error g hf]
    | ok b => rw [bind_of_ok g rfl, bind_of_ok g hf, List.append_assoc]

instance : LawfulMonad (Recorded ε σ) :=
  LawfulMonad.mk' _ Recorded.id_map (fun _ _ => rfl) Recorded.bind_assoc

/-- Every event of the run meets a condition. -/
def Every (p : ε → Prop) (m : Recorded ε σ α) : Prop := ∀ e ∈ m.events, p e

variable {p : ε → Prop}

theorem every_of_events_eq_nil (h : m.events = []) : m.Every p := by
  rw [Every, h]
  intro e he
  exact absurd he List.not_mem_nil

theorem Every.of_bind {f : α → Recorded ε σ β} (h : (m >>= f).Every p) : m.Every p := by
  intro e he
  refine h e ?_
  cases hm : m.result with
  | error s => rwa [bind_of_error f hm]
  | ok a =>
    rw [bind_of_ok f hm]
    exact List.mem_append_left _ he

/-- Whatever the run stops with meets a condition. -/
def StopsIn (q : σ → Prop) (m : Recorded ε σ α) : Prop := ∀ s, m.result = .error s → q s

variable {q : σ → Prop}

theorem stopsIn_of_ok {a : α} (h : m.result = .ok a) : m.StopsIn q := by
  intro s hs
  rw [h] at hs
  cases hs

theorem stopsIn_stop {s : σ} (h : q s) : (stop s : Recorded ε σ α).StopsIn q := by
  intro s' hs
  cases hs
  exact h

theorem StopsIn.bind {f : α → Recorded ε σ β} (hm : m.StopsIn q) (hf : ∀ a, (f a).StopsIn q) :
    (m >>= f).StopsIn q := by
  intro s hs
  cases hresult : m.result with
  | error s' =>
    rw [bind_of_error f hresult] at hs
    cases hs
    exact hm s hresult
  | ok a =>
    rw [bind_of_ok f hresult] at hs
    exact hf a s hs

theorem StopsIn.forM {f : α → Recorded ε σ Unit} (hf : ∀ a, (f a).StopsIn q) (as : List α) :
    (as.forM f).StopsIn q := by
  induction as with
  | nil => exact stopsIn_of_ok rfl
  | cons a as ih => exact (hf a).bind fun _ => ih

end Recorded
