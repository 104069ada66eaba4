import ZoweCommon.Lib.Chain

/-! Doubly linked lists: two chains over the same addresses, each the reverse of the other,
and the assignments that move an address to the front. -/
namespace Linked

variable {α : Type*} {down up : α → Option α} {front back : Option α} {as bs : List α}

/-- `down` leads from the front through `as`, and `up` leads from the back through the same
addresses in the opposite order. -/
structure Doubly (down up : α → Option α) (front back : Option α) (as : List α) : Prop where
  down_chain : Chain down front as
  up_chain : Chain up back as.reverse

namespace Doubly

theorem nil : Doubly down up none none [] := ⟨rfl, rfl⟩

theorem head?_eq (h : Doubly down up front back as) : as.head? = front := h.down_chain.head?_eq

theorem getLast?_eq (h : Doubly down up front back as) : as.getLast? = back := by
  have hback := h.up_chain.head?_eq
  rwa [List.head?_reverse] at hback

theorem nodup (h : Doubly down up front back as) : as.Nodup := h.down_chain.nodup

/-- An address that is neither the front nor the back has a neighbour on each side. -/
theorem split_of_ne_ends {e : α} (h : Doubly down up front back as) (he : e ∈ as)
    (hf : front ≠ some e) (hb : back ≠ some e) :
    ∃ pre n p post, as = pre ++ n :: e :: p :: post ∧ up e = some n ∧ down e = some p := by
  obtain ⟨pre, post, rfl⟩ := List.append_of_mem he
  have hpre : pre ≠ [] := by
    rintro rfl
    apply hf
    rw [← h.head?_eq]
    rfl
  have hpost : post ≠ [] := by
    rintro rfl
    apply hb
    rw [← h.getLast?_eq]
    simp
  obtain ⟨pre, n, rfl⟩ := (List.eq_nil_or_concat' pre).resolve_left hpre
  obtain ⟨p, post, rfl⟩ := List.exists_cons_of_ne_nil hpost
  have hup : Chain up back ((post.reverse ++ [p]) ++ e :: n :: pre.reverse) := by
    simpa using h.up_chain
  exact ⟨pre, n, p, post, by simp, hup.next_eq_head?, h.down_chain.next_eq_head?⟩

variable [DecidableEq α]

theorem push {a n : α} (h : Doubly down up front back as) (ha : a ∉ as) (hf : front = some n) :
    Doubly (Function.update down a front)
      (Function.update (Function.update up a none) n (some a)) (some a) back (a :: as) := by
  refine ⟨h.down_chain.push ha, ?_⟩
  obtain ⟨as, rfl⟩ : ∃ bs, as = n :: bs := by
    have hhead := h.head?_eq
    rw [hf] at hhead
    exact List.head?_eq_some_iff.mp hhead
  have hup : Chain (Function.update up a none) back (as.reverse ++ [n]) := by
    have := h.up_chain.update_of_notMem (q := none) (List.mem_reverse.not.mpr ha)
    rwa [List.reverse_cons] at this
  have hnew : a ∉ as.reverse ++ [n] := by
    simpa [and_comm] using ha
  have hsnoc := hup.snoc hnew (Function.update_self ..)
  simpa using hsnoc

/-- The back address leaves; the one above it becomes the back. -/
theorem dropBack {pre : List α} {o e : α} (h : Doubly down up front back (pre ++ [o, e])) :
    Doubly (Function.update down o none) up front (some o) (pre ++ [o]) ∧ up e = some o := by
  have hup : Chain up back (e :: o :: pre.reverse) := by
    simpa using h.up_chain
  refine ⟨⟨h.down_chain.cut, ?_⟩, hup.2.1⟩
  have htail : Chain up (some o) (o :: pre.reverse) := hup.2.1 ▸ hup.2
  simpa using htail

/-- An address between two others leaves, and they become neighbours. -/
theorem unlink {pre post : List α} {n e p : α}
    (h : Doubly down up front back (pre ++ n :: e :: p :: post)) :
    Doubly (Function.update down n (down e)) (Function.update up p (up e)) front back
      (pre ++ n :: p :: post) := by
  refine ⟨h.down_chain.unlink, ?_⟩
  have hup : Chain up back (post.reverse ++ p :: e :: n :: pre.reverse) := by
    simpa using h.up_chain
  simpa using hup.unlink

end Doubly
end Linked
