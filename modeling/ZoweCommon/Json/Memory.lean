import Mathlib.Data.List.Forall2
import Mathlib.Data.Set.Insert
import ZoweCommon.Json.Builder

/-! Which tree an address holds, and what building one more value leaves of the memory. -/
namespace ZoweCommon

namespace Json

mutual

/-- The tree below an address, all of whose nodes lie in `S`. -/
def Rep (heap : List JsonNode) (S : Set ℕ) (p : ℕ) : Json → Prop
  | .scalar s => p ∈ S ∧ heap[p]? = some (.scalar s)
  | .object props => p ∈ S ∧ ∃ ps, heap[p]? = some (.object ps) ∧ RepProperties heap S ps props
  | .array elements => p ∈ S ∧ ∃ es, heap[p]? = some (.array es) ∧ RepElements heap S es elements

def RepProperties (heap : List JsonNode) (S : Set ℕ) :
    List (CString × ℕ) → List (CString × Json) → Prop
  | ps, [] => ps = []
  | ps, (key, value) :: props =>
    ∃ p ps', ps = (key, p) :: ps' ∧ Rep heap S p value ∧ RepProperties heap S ps' props

def RepElements (heap : List JsonNode) (S : Set ℕ) : List ℕ → List Json → Prop
  | es, [] => es = []
  | es, value :: elements =>
    ∃ p es', es = p :: es' ∧ Rep heap S p value ∧ RepElements heap S es' elements

end

/-- The tree at an address, the nodes of whose parts lie in `S`. -/
def RepNode (heap : List JsonNode) (S : Set ℕ) (p : ℕ) : Json → Prop
  | .scalar s => heap[p]? = some (.scalar s)
  | .object props => ∃ ps, heap[p]? = some (.object ps) ∧ RepProperties heap S ps props
  | .array elements => ∃ es, heap[p]? = some (.array es) ∧ RepElements heap S es elements

variable {heap heap' : List JsonNode} {S S' : Set ℕ} {p : ℕ}

theorem rep_iff {t : Json} : Rep heap S p t ↔ p ∈ S ∧ RepNode heap S p t := by
  cases t <;> rw [Rep] <;> rfl

theorem repProperties_iff {ps : List (CString × ℕ)} {props : List (CString × Json)} :
    RepProperties heap S ps props ↔
      List.Forall₂ (fun q prop => q.1 = prop.1 ∧ Rep heap S q.2 prop.2) ps props := by
  induction props generalizing ps with
  | nil => rw [RepProperties, List.forall₂_nil_right_iff]
  | cons prop props ih =>
    obtain ⟨key, value⟩ := prop
    rw [RepProperties, List.forall₂_cons_right_iff]
    constructor
    · rintro ⟨p, ps', rfl, hp, hps⟩
      exact ⟨(key, p), ps', ⟨rfl, hp⟩, ih.mp hps, rfl⟩
    · rintro ⟨⟨k, p⟩, ps', ⟨rfl, hp⟩, hps, rfl⟩
      exact ⟨p, ps', rfl, hp, ih.mpr hps⟩

theorem repElements_iff {es : List ℕ} {elements : List Json} :
    RepElements heap S es elements ↔ List.Forall₂ (Rep heap S) es elements := by
  induction elements generalizing es with
  | nil => rw [RepElements, List.forall₂_nil_right_iff]
  | cons value elements ih =>
    rw [RepElements, List.forall₂_cons_right_iff]
    constructor
    · rintro ⟨p, es', rfl, hp, hes⟩
      exact ⟨p, es', hp, ih.mp hes, rfl⟩
    · rintro ⟨p, es', hp, hes, rfl⟩
      exact ⟨p, es', rfl, hp, ih.mpr hes⟩

/-- A tree depends on its own nodes only. -/
theorem Rep.move {t : Json} (hmove : ∀ i ∈ S, ∀ node, heap[i]? = some node →
    i ∈ S' ∧ heap'[i]? = some node) (h : Rep heap S p t) : Rep heap' S' p t := by
  induction t using parts_induction generalizing p with
  | scalar s =>
    obtain ⟨hp, hnode⟩ := h
    exact hmove p hp _ hnode
  | object props ih =>
    rw [Rep] at h ⊢
    obtain ⟨hp, ps, hnode, hprops⟩ := h
    obtain ⟨hp', hnode'⟩ := hmove p hp _ hnode
    refine ⟨hp', ps, hnode', ?_⟩
    rw [repProperties_iff] at hprops ⊢
    refine List.forall₂_iff_get.mpr ⟨hprops.length_eq, fun i hi hi' => ?_⟩
    obtain ⟨hkey, hvalue⟩ := hprops.get hi hi'
    exact ⟨hkey, ih _ (List.get_mem _ _) hvalue⟩
  | array elements ih =>
    rw [Rep] at h ⊢
    obtain ⟨hp, es, hnode, helements⟩ := h
    obtain ⟨hp', hnode'⟩ := hmove p hp _ hnode
    refine ⟨hp', es, hnode', ?_⟩
    rw [repElements_iff] at helements ⊢
    refine List.forall₂_iff_get.mpr ⟨helements.length_eq, fun i hi hi' => ?_⟩
    exact ih _ (List.get_mem _ _) (helements.get hi hi')

theorem Rep.transport {t : Json} (hS : S ⊆ S')
    (hkept : ∀ i ∈ S, ∀ node, heap[i]? = some node → heap'[i]? = some node)
    (h : Rep heap S p t) : Rep heap' S' p t :=
  h.move fun i hi node hnode => ⟨hS hi, hkept i hi node hnode⟩

theorem Rep.inBounds {t : Json} (h : Rep heap S p t) : Rep heap {i | i < heap.length} p t := by
  apply h.move
  intro i _ node hnode
  have hlt := (List.getElem?_eq_some_iff.mp hnode).1
  exact ⟨hlt, hnode⟩

theorem RepProperties.transport {ps : List (CString × ℕ)} {props : List (CString × Json)}
    (hS : S ⊆ S') (hkept : ∀ i ∈ S, ∀ node, heap[i]? = some node → heap'[i]? = some node)
    (h : RepProperties heap S ps props) : RepProperties heap' S' ps props := by
  rw [repProperties_iff] at h ⊢
  exact h.imp fun _ _ hq => ⟨hq.1, hq.2.transport hS hkept⟩

theorem RepElements.transport {es : List ℕ} {elements : List Json} (hS : S ⊆ S')
    (hkept : ∀ i ∈ S, ∀ node, heap[i]? = some node → heap'[i]? = some node)
    (h : RepElements heap S es elements) : RepElements heap' S' es elements := by
  rw [repElements_iff] at h ⊢
  exact h.imp fun _ _ hq => hq.transport hS hkept

theorem RepNode.mono {t : Json} (hS : S ⊆ S') (h : RepNode heap S p t) : RepNode heap S' p t := by
  cases t with
  | scalar s => exact h
  | object props =>
    obtain ⟨ps, hnode, hprops⟩ := h
    exact ⟨ps, hnode, hprops.transport hS fun _ _ _ hn => hn⟩
  | array elements =>
    obtain ⟨es, hnode, helements⟩ := h
    exact ⟨es, hnode, helements.transport hS fun _ _ _ hn => hn⟩

end Json

namespace JsonBuilder

open Json

variable {b b' b'' : JsonBuilder} {parent : Option ℕ} {parentKey : Option CString}

/-- A parent that takes a value: an object under a key, an array or the root without one. -/
inductive Slot (b : JsonBuilder) : Option ℕ → Option CString → Prop
  | root : Slot b none none
  | property {p : ℕ} {ps : List (CString × ℕ)} (key : CString) (h : b.heap[p]? = some (.object ps)) :
      Slot b (some p) (some key)
  | element {p : ℕ} {es : List ℕ} (h : b.heap[p]? = some (.array es)) : Slot b (some p) none

/-- The value went in its slot and nothing else of the parent changed. -/
inductive Placed (b b' : JsonBuilder) (json : ℕ) : Option ℕ → Option CString → Prop
  | root (h : b'.root = some json) : Placed b b' json none none
  | property {p : ℕ} {ps : List (CString × ℕ)} {key : CString} (hroot : b'.root = b.root)
      (h : b.heap[p]? = some (.object ps))
      (h' : b'.heap[p]? = some (.object (ps ++ [(key, json)]))) : Placed b b' json (some p) (some key)
  | element {p : ℕ} {es : List ℕ} (hroot : b'.root = b.root) (h : b.heap[p]? = some (.array es))
      (h' : b'.heap[p]? = some (.array (es ++ [json]))) : Placed b b' json (some p) none

/-- Nothing that was allocated changed, but for one node perhaps. -/
structure Kept (b b' : JsonBuilder) (except : Option ℕ) : Prop where
  length_le : b.heap.length ≤ b'.heap.length
  heap : ∀ i < b.heap.length, except ≠ some i → b'.heap[i]? = b.heap[i]?

/-- One more value was built in a slot: its node is the first new one, the nodes of its parts
come after it, and the old ones are kept, but for the parent. -/
structure Built (b b' : JsonBuilder) (parent : Option ℕ) (parentKey : Option CString) (t : Json) :
    Prop where
  kept : Kept b b' parent
  placed : Placed b b' b.heap.length parent parentKey
  rep : RepNode b'.heap {i | b.heap.length < i} b.heap.length t

theorem Kept.refl (b : JsonBuilder) (except : Option ℕ) : Kept b b except :=
  ⟨le_rfl, fun _ _ _ => rfl⟩

theorem Kept.trans {except : Option ℕ} (h : Kept b b' except) (h' : Kept b' b'' except) :
    Kept b b'' except where
  length_le := h.length_le.trans h'.length_le
  heap i hi hne := (h'.heap i (hi.trans_le h.length_le) hne).trans (h.heap i hi hne)

theorem lt_length_of_getElem? {p : ℕ} {node : JsonNode} (h : b.heap[p]? = some node) :
    p < b.heap.length := (List.getElem?_eq_some_iff.mp h).1

/-- A tree among kept nodes is still there. -/
theorem Kept.rep {except : Option ℕ} (h : Kept b b' except) {S : Set ℕ} {p : ℕ} {t : Json}
    (hS : ∀ i ∈ S, except ≠ some i) (ht : Rep b.heap S p t) : Rep b'.heap S p t := by
  apply ht.transport subset_rfl
  intro i hi node hnode
  rw [h.heap i (lt_length_of_getElem? hnode) (hS i hi), hnode]

theorem Slot.build (h : Slot b parent parentKey) (node : JsonNode) :
    ∃ b', b.build parent parentKey node = .ok (some b.heap.length, 0, b') ∧
      Placed b b' b.heap.length parent parentKey ∧ Kept b b' parent ∧
      b'.heap[b.heap.length]? = some node ∧ b'.heap.length = b.heap.length + 1 := by
  have hnew : (b.heap ++ [node])[b.heap.length]? = some node := by simp
  have hold : ∀ i < b.heap.length, (b.heap ++ [node])[i]? = b.heap[i]? :=
    fun i hi => List.getElem?_append_left hi
  -- only the parent is written to, and it is not the new node
  have hset : ∀ p n, b.heap[p]? ≠ none → Kept b ⟨(b.heap ++ [node]).set p n, b.root⟩ (some p) ∧
      ((b.heap ++ [node]).set p n)[b.heap.length]? = some node ∧
      ((b.heap ++ [node]).set p n)[p]? = some n ∧
      ((b.heap ++ [node]).set p n).length = b.heap.length + 1 := by
    intro p n hp
    have hlt : p < b.heap.length := by
      rw [ne_eq, List.getElem?_eq_none_iff, not_le] at hp
      exact hp
    refine ⟨⟨by simp, fun i hi hne => ?_⟩, ?_, ?_, by simp⟩
    · rw [List.getElem?_set_ne (fun hpi => hne (congrArg some hpi)), hold i hi]
    · rw [List.getElem?_set_ne (by omega), hnew]
    · apply List.getElem?_set_self
      simp only [List.length_append, List.length_singleton]
      omega
  have hgrown : Kept b ⟨b.heap ++ [node], b.root⟩ parent := ⟨by simp, fun i hi _ => hold i hi⟩
  cases h with
  | root =>
    refine ⟨⟨b.heap ++ [node], some b.heap.length⟩, rfl, .root rfl, ⟨hgrown.1, hgrown.2⟩, hnew, ?_⟩
    simp
  | @property p ps key h =>
    have hp := hold p (lt_length_of_getElem? h)
    rw [h] at hp
    obtain ⟨hkept, hnode, hself, hlength⟩ :=
      hset p (.object (ps ++ [(key, b.heap.length)])) (by simp [h])
    refine ⟨⟨(b.heap ++ [node]).set p (.object (ps ++ [(key, b.heap.length)])), b.root⟩, ?_,
      .property rfl h hself, hkept, hnode, hlength⟩
    simp [JsonBuilder.build, checkParentLValue, JsonBuilder.node, h, addToParent,
      jsonObjectAddProperty, hp]
  | @element p es h =>
    have hp := hold p (lt_length_of_getElem? h)
    rw [h] at hp
    obtain ⟨hkept, hnode, hself, hlength⟩ :=
      hset p (.array (es ++ [b.heap.length])) (by simp [h])
    refine ⟨⟨(b.heap ++ [node]).set p (.array (es ++ [b.heap.length])), b.root⟩, ?_,
      .element rfl h hself, hkept, hnode, hlength⟩
    simp [JsonBuilder.build, checkParentLValue, JsonBuilder.node, h, addToParent,
      jsonArrayAddElement, hp]

/-- A value without parts, or with no parts yet. -/
theorem Slot.build_built (h : Slot b parent parentKey) {node : JsonNode} {t : Json}
    (ht : ∀ (heap : List JsonNode) S p, heap[p]? = some node → RepNode heap S p t) :
    ∃ b', b.build parent parentKey node = .ok (some b.heap.length, 0, b') ∧
      Built b b' parent parentKey t := by
  obtain ⟨b', hrun, hplaced, hkept, hnode, -⟩ := h.build node
  exact ⟨b', hrun, hkept, hplaced, ht _ _ _ hnode⟩

theorem Slot.build_scalar (h : Slot b parent parentKey) (s : JsonScalar) :
    ∃ b', b.build parent parentKey (.scalar s) = .ok (some b.heap.length, 0, b') ∧
      Built b b' parent parentKey (.scalar s) :=
  h.build_built fun _ _ _ hnode => hnode

theorem Slot.jsonBuildObject (h : Slot b parent parentKey) :
    ∃ b', b.jsonBuildObject parent parentKey = .ok (some b.heap.length, 0, b') ∧
      Built b b' parent parentKey (.object []) :=
  h.build_built fun _ _ _ hnode => ⟨[], hnode, rfl⟩

theorem Slot.jsonBuildArray (h : Slot b parent parentKey) :
    ∃ b', b.jsonBuildArray parent parentKey = .ok (some b.heap.length, 0, b') ∧
      Built b b' parent parentKey (.array []) :=
  h.build_built fun _ _ _ hnode => ⟨[], hnode, rfl⟩

theorem Placed.root_eq {json p : ℕ} (h : Placed b b' json (some p) parentKey) :
    b'.root = b.root := by
  cases h with
  | property hroot _ _ => exact hroot
  | element hroot _ _ => exact hroot

/-- A value stays in its slot while other nodes are written to. -/
theorem Placed.of_kept {json q : ℕ} (h : Placed b b' json parent parentKey)
    (hkept : Kept b' b'' (some q)) (hroot : b''.root = b'.root) (hq : b.heap.length ≤ q) :
    Placed b b'' json parent parentKey := by
  cases h with
  | root h => exact .root (hroot.trans h)
  | @property p ps key hr h h' =>
    have hlt := lt_length_of_getElem? h
    refine .property (hroot.trans hr) h ?_
    rw [hkept.heap p (lt_length_of_getElem? h') (by simp; omega), h']
  | @element p es hr h h' =>
    have hlt := lt_length_of_getElem? h
    refine .element (hroot.trans hr) h ?_
    rw [hkept.heap p (lt_length_of_getElem? h') (by simp; omega), h']

section

variable {b₀ : JsonBuilder}

theorem RepNode.lt_length {S : Set ℕ} {p : ℕ} {t : Json} (h : RepNode b.heap S p t) :
    p < b.heap.length := by
  cases t with
  | scalar s => exact lt_length_of_getElem? h
  | object props =>
    obtain ⟨ps, h, -⟩ := h
    exact lt_length_of_getElem? h
  | array elements =>
    obtain ⟨es, h, -⟩ := h
    exact lt_length_of_getElem? h

/-- What is built below a value that was just built leaves everything older alone. -/
theorem Built.kept_push {t u : Json} {key : Option CString} (h : Built b₀ b parent parentKey t)
    (h' : Built b b' (some b₀.heap.length) key u) :
    Kept b₀ b' parent ∧ Placed b₀ b' b₀.heap.length parent parentKey ∧
      Rep b'.heap {i | b₀.heap.length < i} b.heap.length u := by
  have hlt := RepNode.lt_length h.rep
  refine ⟨⟨h.kept.length_le.trans h'.kept.length_le, fun i hi hne => ?_⟩, ?_, ?_⟩
  · rw [h'.kept.heap i (hi.trans_le h.kept.length_le) (by simp; omega), h.kept.heap i hi hne]
  · exact h.placed.of_kept h'.kept h'.placed.root_eq le_rfl
  · refine rep_iff.mpr ⟨hlt, h'.rep.mono fun i hi => ?_⟩
    exact lt_trans hlt hi

/-- The nodes that come after the parent are not touched. -/
theorem Built.kept_above {u : Json} {q : ℕ} {key : Option CString} (h : Built b b' (some q) key u) :
    ∀ i ∈ {i | q < i}, ∀ node, b.heap[i]? = some node → b'.heap[i]? = some node := by
  intro i hi node hnode
  have hne : some q ≠ some i := by
    have : q < i := hi
    simp
    omega
  rw [h.kept.heap i (lt_length_of_getElem? hnode) hne, hnode]

theorem Built.push_property {props : List (CString × Json)} {key : CString} {u : Json}
    (h : Built b₀ b parent parentKey (.object props))
    (h' : Built b b' (some b₀.heap.length) (some key) u) :
    Built b₀ b' parent parentKey (.object (props ++ [(key, u)])) := by
  obtain ⟨hkept, hplaced, hu⟩ := h.kept_push h'
  obtain ⟨ps, hps, hprops⟩ := h.rep
  refine ⟨hkept, hplaced, ?_⟩
  cases h'.placed with
  | @property _ ps' _ _ hps' hnode =>
    rw [hps, Option.some_inj, JsonNode.object.injEq] at hps'
    subst hps'
    refine ⟨_, hnode, ?_⟩
    have hold := hprops.transport subset_rfl h'.kept_above
    rw [repProperties_iff] at hold ⊢
    exact List.rel_append hold (.cons ⟨rfl, hu⟩ .nil)

theorem Built.push_element {elements : List Json} {u : Json}
    (h : Built b₀ b parent parentKey (.array elements))
    (h' : Built b b' (some b₀.heap.length) none u) :
    Built b₀ b' parent parentKey (.array (elements ++ [u])) := by
  obtain ⟨hkept, hplaced, hu⟩ := h.kept_push h'
  obtain ⟨es, hes, helements⟩ := h.rep
  refine ⟨hkept, hplaced, ?_⟩
  cases h'.placed with
  | @element _ es' _ hes' hnode =>
    rw [hes, Option.some_inj, JsonNode.array.injEq] at hes'
    subst hes'
    refine ⟨_, hnode, ?_⟩
    have hold := helements.transport subset_rfl h'.kept_above
    rw [repElements_iff] at hold ⊢
    exact List.rel_append hold (.cons hu .nil)

theorem Built.slot_property {props : List (CString × Json)}
    (h : Built b₀ b parent parentKey (.object props)) (key : CString) :
    Slot b (some b₀.heap.length) (some key) := by
  obtain ⟨ps, hps, -⟩ := h.rep
  exact .property key hps

theorem Built.slot_element {elements : List Json}
    (h : Built b₀ b parent parentKey (.array elements)) : Slot b (some b₀.heap.length) none := by
  obtain ⟨es, hes, -⟩ := h.rep
  exact .element hes

/-- Nodes to read from: old ones, and not the parent that is written to. -/
def Readable (b : JsonBuilder) (parent : Option ℕ) (S : Set ℕ) : Prop :=
  ∀ i ∈ S, i < b.heap.length ∧ parent ≠ some i

theorem Built.readable {t : Json} {S : Set ℕ} (h : Built b₀ b parent parentKey t)
    (hS : Readable b₀ parent S) : Readable b (some b₀.heap.length) S := by
  intro i hi
  obtain ⟨hlt, -⟩ := hS i hi
  refine ⟨hlt.trans_le h.kept.length_le, ?_⟩
  simp
  omega

theorem Built.source {t u : Json} {S : Set ℕ} {p : ℕ} (h : Built b₀ b parent parentKey t)
    (hS : Readable b₀ parent S) (hu : Rep b₀.heap S p u) : Rep b.heap S p u :=
  h.kept.rep (fun i hi => (hS i hi).2) hu

end

end JsonBuilder
end ZoweCommon
