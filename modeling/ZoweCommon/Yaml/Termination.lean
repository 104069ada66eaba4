import Mathlib.Data.Int.Interval
import ZoweCommon.Lib.FuelledWalk
import ZoweCommon.Yaml.Conversion

/-! Which documents the conversion to JSON comes to the end of. -/
namespace ZoweCommon

open CLibrary CString YamlTree JsonBuilder Relation

/-- The conversion without what it builds. -/
def walk (doc : YamlDocument) : ℕ → YamlNode → Exec Unit
  | 0, _ => throw .nonTermination
  | fuel + 1, node =>
    match node with
    | .noNode => return ()
    | .scalar tag value style => do
      let _ ← scalarPart tag value style
      return ()
    | .sequence items => items.forM fun item =>
      match yaml_document_get_node doc item with
      | some nextNode => walk doc fuel nextNode
      | none => return ()
    | .mapping pairs => pairs.forM fun pair => do
      match ← pairKey doc pair.1 with
      | some _ =>
        match yaml_document_get_node doc pair.2 with
        | some valueNode => walk doc fuel valueNode
        | none => return ()
      | none => return ()

namespace JsonBuilder

variable {b b' b'' : JsonBuilder} {parent : Option ℕ} {parentKey : Option CString}

structure Extends (b b' : JsonBuilder) : Prop where
  object : ∀ (p : ℕ) ps, b.heap[p]? = some (.object ps) → ∃ ps', b'.heap[p]? = some (.object ps')
  array : ∀ (p : ℕ) es, b.heap[p]? = some (.array es) → ∃ es', b'.heap[p]? = some (.array es')

theorem Extends.refl (b : JsonBuilder) : Extends b b :=
  ⟨fun _ ps h => ⟨ps, h⟩, fun _ es h => ⟨es, h⟩⟩

theorem Extends.trans (h : Extends b b') (h' : Extends b' b'') : Extends b b'' where
  object p ps hp := by
    obtain ⟨ps', hp'⟩ := h.object p ps hp
    exact h'.object p ps' hp'
  array p es hp := by
    obtain ⟨es', hp'⟩ := h.array p es hp
    exact h'.array p es' hp'

theorem Extends.slot_property {p : ℕ} {key : CString} (h : Extends b b')
    (hslot : Slot b (some p) (some key)) (key' : CString) : Slot b' (some p) (some key') := by
  cases hslot with
  | @property _ ps _ hp =>
    obtain ⟨ps', hp'⟩ := h.object p ps hp
    exact .property key' hp'

theorem Extends.slot_element {p : ℕ} (h : Extends b b') (hslot : Slot b (some p) none) :
    Slot b' (some p) none := by
  cases hslot with
  | @element _ es hp =>
    obtain ⟨es', hp'⟩ := h.array p es hp
    exact .element hp'

/-- Only the parent changes, and it gets one more part. -/
theorem Built.extends {t : Json} (h : Built b b' parent parentKey t) : Extends b b' where
  object p ps hp := by
    have hlt : p < b.heap.length := lt_length_of_getElem? hp
    by_cases hparent : parent = some p
    · subst hparent
      cases h.placed with
      | property hroot hnode hnode' => exact ⟨_, hnode'⟩
      | element hroot hnode hnode' =>
        rw [hp] at hnode
        cases hnode
    · exact ⟨ps, (h.kept.heap p hlt hparent).trans hp⟩
  array p es hp := by
    have hlt : p < b.heap.length := lt_length_of_getElem? hp
    by_cases hparent : parent = some p
    · subst hparent
      cases h.placed with
      | property hroot hnode hnode' =>
        rw [hp] at hnode
        cases hnode
      | element hroot hnode hnode' => exact ⟨_, hnode'⟩
    · exact ⟨es, (h.kept.heap p hlt hparent).trans hp⟩

/-- A run faults as a walk does or, like it, comes to its end. -/
def Follows (b : JsonBuilder) (run : Exec JsonBuilder) : Exec Unit → Prop
  | .error fault => run = .error fault
  | .ok _ => ∃ b', run = .ok b' ∧ Extends b b'

theorem BuildsPart.follows {template : Bool} {run : Exec (Option ℕ × JsonBuilder)}
    {part : Exec (Option Json)} (h : BuildsPart b parent parentKey template run part) :
    Follows b (do return (← run).2) (do
      let _ ← part
      return ()) := by
  cases part with
  | error fault => exact Exec.bind_eq_error h
  | ok part =>
    cases part with
    | none => exact ⟨b, Exec.bind_eq_ok.mpr ⟨_, h, rfl⟩, .refl b⟩
    | some j =>
      obtain ⟨b', hrun, hbuilt⟩ := h
      exact ⟨b', Exec.bind_eq_ok.mpr ⟨_, hrun, rfl⟩, hbuilt.extends⟩

/-- A loop whose steps follow, while they leave what the builder is used for. By induction on
the parts. -/
theorem follows_loop {α : Type} {xs : List α} {step : JsonBuilder → α → Exec JsonBuilder}
    {walkStep : α → Exec Unit} (ready : JsonBuilder → Prop)
    (hready : ∀ b b', Extends b b' → ready b → ready b')
    (hstep : ∀ b x, ready b → x ∈ xs → Follows b (step b x) (walkStep x)) {b : JsonBuilder}
    (hb : ready b) : Follows b (xs.foldlM step b) (xs.forM walkStep) := by
  induction xs generalizing b with
  | nil => exact ⟨b, rfl, .refl b⟩
  | cons x xs ih =>
    have hx := hstep b x hb List.mem_cons_self
    rw [List.foldlM_cons]
    change Follows b _ (walkStep x >>= fun _ => xs.forM walkStep)
    cases hwalk : walkStep x with
    | error fault =>
      rw [hwalk] at hx
      exact Exec.bind_eq_error hx
    | ok u =>
      rw [hwalk] at hx
      obtain ⟨b', hrun, hextends⟩ := hx
      have hrest := ih (fun b x hb hx => hstep b x hb (List.mem_cons_of_mem _ hx))
        (hready b b' hextends hb)
      rw [hrun, Exec.ok_bind, Exec.ok_bind]
      cases hforM : xs.forM walkStep with
      | error fault =>
        rw [hforM] at hrest
        exact hrest
      | ok u' =>
        rw [hforM] at hrest
        obtain ⟨b'', hrun', hextends'⟩ := hrest
        exact ⟨b'', hrun', hextends.trans hextends'⟩

/-- The parts are added to a value that was built before. -/
theorem Follows.of_extends {json : Option ℕ} {run : Exec JsonBuilder} {w : Exec Unit}
    (hextends : Extends b b') (h : Follows b' run w) :
    Follows b (do return (← (do return (json, ← run) : Exec (Option ℕ × JsonBuilder))).2) w := by
  cases w with
  | error fault => exact Exec.bind_eq_error (Exec.bind_eq_error h)
  | ok u =>
    obtain ⟨b'', hrun, hextends'⟩ := h
    exact ⟨b'', by rw [hrun]; rfl, hextends.trans hextends'⟩

/-- The conversion follows the walk, wherever the value goes. By induction on the fuel. -/
theorem Slot.follows_walk (doc : YamlDocument) (fuel : ℕ) (h : Slot b parent parentKey)
    (node : YamlNode) :
    Follows b (do return (← yaml2JSON1 doc fuel b parent parentKey node).2)
      (walk doc fuel node) := by
  induction fuel generalizing b parent parentKey node with
  | zero => rfl
  | succ fuel ih =>
    cases node with
    | noNode => exact ⟨b, rfl, .refl b⟩
    | scalar tag value style =>
      rw [yaml2JSON1, walk]
      exact (h.scalar2JSON tag value style).follows
    | sequence items =>
      obtain ⟨b₁, hrun₁, hbuilt₁⟩ := h.jsonBuildArray
      rw [yaml2JSON1, walk, hrun₁, Exec.ok_bind]
      refine Follows.of_extends hbuilt₁.extends (follows_loop
        (fun b => Slot b (some _) none) (fun _ _ => Extends.slot_element)
        (fun b' item hslot _ => ?_) hbuilt₁.slot_element)
      cases yaml_document_get_node doc item with
      | none => exact ⟨b', rfl, .refl b'⟩
      | some nextNode => exact ih hslot nextNode
    | mapping pairs =>
      obtain ⟨b₁, hrun₁, hbuilt₁⟩ := h.jsonBuildObject
      rw [yaml2JSON1, walk, hrun₁, Exec.ok_bind]
      refine Follows.of_extends hbuilt₁.extends (follows_loop
        (fun b => ∀ key, Slot b (some _) (some key))
        (fun _ _ hextends hslot key => hextends.slot_property (hslot key) key)
        (fun b' pair hslot _ => ?_) hbuilt₁.slot_property)
      cases pairKey doc pair.1 with
      | error fault => rfl
      | ok key =>
        cases key with
        | none => exact ⟨b', rfl, .refl b'⟩
        | some key =>
          rw [Exec.ok_bind, Exec.ok_bind]
          dsimp only
          cases yaml_document_get_node doc pair.2 with
          | none => exact ⟨b', rfl, .refl b'⟩
          | some valueNode => exact ih (hslot key) valueNode

end JsonBuilder

/-! The walk as a recursion down the graph of the nodes -/

variable {doc : YamlDocument}

/-- The values that are converted next: of a mapping those that have a key. -/
def goesOnTo (doc : YamlDocument) : YamlNode → List ℤ
  | .sequence items => items
  | .mapping pairs =>
    (pairs.filter fun pair => (pairKey doc pair.1).toOption.join.isSome).map Prod.snd
  | _ => []

/-- What stands in the node itself can be converted: it is no integer or template that the code
has no meaning for, and no key of it is longer than an `int` tells. -/
def Convertible (doc : YamlDocument) : YamlNode → Prop
  | .scalar tag value style => ∃ part, scalarPart tag value style = .ok part
  | .mapping pairs => ∀ pair ∈ pairs, ∃ key, pairKey doc pair.1 = .ok key
  | _ => True

def ConvertibleAt (doc : YamlDocument) (index : ℤ) : Prop :=
  ∀ node, yaml_document_get_node doc index = some node → Convertible doc node

/-- The conversion goes on from one node to another. -/
def GoesOnTo (doc : YamlDocument) (i j : ℤ) : Prop :=
  ∃ node, yaml_document_get_node doc i = some node ∧ j ∈ goesOnTo doc node ∧
    (yaml_document_get_node doc j).isSome = true

theorem forM_eq_ok_iff {α : Type} {xs : List α} {f : α → Exec Unit} :
    xs.forM f = .ok () ↔ ∀ x ∈ xs, f x = .ok () := by
  induction xs with
  | nil => exact iff_of_true rfl (List.forall_mem_nil _)
  | cons x xs ih =>
    rw [List.forall_mem_cons, ← ih]
    change (f x >>= fun _ => xs.forM f) = .ok () ↔ _
    rw [Exec.bind_eq_ok]
    exact ⟨fun ⟨_, hx, hxs⟩ => ⟨hx, hxs⟩, fun ⟨hx, hxs⟩ => ⟨(), hx, hxs⟩⟩

/-- A walk ends when it does from all the values that are next. -/
theorem walk_succ_eq_ok_iff {fuel : ℕ} {node : YamlNode} :
    walk doc (fuel + 1) node = .ok () ↔ Convertible doc node ∧ ∀ j ∈ goesOnTo doc node,
      ∀ n, yaml_document_get_node doc j = some n → walk doc fuel n = .ok () := by
  cases node with
  | noNode => exact iff_of_true rfl ⟨trivial, List.forall_mem_nil _⟩
  | scalar tag value style =>
    rw [walk, Exec.bind_eq_ok]
    exact ⟨fun ⟨part, hpart, _⟩ => ⟨⟨part, hpart⟩, List.forall_mem_nil _⟩,
      fun ⟨⟨part, hpart⟩, _⟩ => ⟨part, hpart, rfl⟩⟩
  | sequence items =>
    rw [walk, forM_eq_ok_iff]
    change _ ↔ True ∧ ∀ j ∈ items, _
    rw [true_and]
    refine forall₂_congr fun j _ => ?_
    cases yaml_document_get_node doc j with
    | none => exact iff_of_true rfl fun n hn => (by cases hn)
    | some node => exact ⟨fun h n hn => Option.some.inj hn ▸ h, fun h => h node rfl⟩
  | mapping pairs =>
    rw [walk, forM_eq_ok_iff]
    change _ ↔ (∀ pair ∈ pairs, _) ∧ ∀ j ∈ (pairs.filter _).map Prod.snd, _
    rw [List.forall_mem_map, List.forall_mem_filter, ← forall₂_and]
    refine forall₂_congr fun pair _ => ?_
    cases pairKey doc pair.1 with
    | error fault => exact iff_of_false (fun h => (by cases h)) fun h => (by cases h.1.choose_spec)
    | ok key =>
      rw [Exec.ok_bind, and_iff_right ⟨key, rfl⟩]
      cases key with
      | none => exact iff_of_true rfl fun h => absurd h Bool.false_ne_true
      | some key =>
        cases yaml_document_get_node doc pair.2 with
        | none => exact iff_of_true rfl fun _ n hn => (by cases hn)
        | some node => exact ⟨fun h _ n hn => Option.some.inj hn ▸ h, fun h => h rfl node rfl⟩

/-- A walk is a recursion down the graph. By induction on the fuel. -/
theorem walk_eq_ok_iff {fuel : ℕ} {i : ℤ} {node : YamlNode}
    (hnode : yaml_document_get_node doc i = some node) :
    walk doc fuel node = .ok () ↔
      FuelledWalk.Walks (ConvertibleAt doc) (GoesOnTo doc) fuel i := by
  induction fuel generalizing i node with
  | zero => exact iff_of_false (fun h => (by cases h)) id
  | succ fuel ih =>
    rw [walk_succ_eq_ok_iff, FuelledWalk.Walks]
    refine and_congr ?_ ?_
    · refine ⟨fun h node' hnode' => ?_, fun h => h node hnode⟩
      rw [hnode] at hnode'
      cases hnode'
      exact h
    · constructor
      · rintro h j ⟨node', hnode', hj, hsome⟩
        rw [hnode] at hnode'
        cases hnode'
        obtain ⟨next, hnext⟩ := Option.isSome_iff_exists.mp hsome
        exact (ih hnext).mp (h j hj next hnext)
      · intro h j hj next hnext
        exact (ih hnext).mpr (h j ⟨node, hnode, hj, by rw [hnext]; rfl⟩)

theorem finite_reached (doc : YamlDocument) (i : ℤ) :
    {j | ReflTransGen (GoesOnTo doc) i j}.Finite := by
  refine (((Set.finite_Icc 1 (doc.nodes.length : ℤ)).insert i)).subset fun j hj => ?_
  rcases reflTransGen_iff_eq_or_transGen.mp hj with rfl | hj
  · exact Set.mem_insert _ _
  · refine Set.mem_insert_of_mem _ ?_
    obtain ⟨_, -, -, -, -, hsome⟩ := TransGen.tail'_iff.mp hj
    rw [yaml_document_get_node] at hsome
    split_ifs at hsome with hpos
    · obtain ⟨node, hnode⟩ := Option.isSome_iff_exists.mp hsome
      have hlt := (List.getElem?_eq_some_iff.mp hnode).1
      exact Set.mem_Icc.mpr ⟨by omega, by omega⟩
    · exact absurd hsome Bool.false_ne_true

theorem yaml2JSON_eq_ok_iff (heap : List JsonNode) (fuel : ℕ) {root : YamlNode}
    (hroot : yaml_document_get_root_node doc = some root) :
    (∃ result, yaml2JSON fuel heap doc = .ok result) ↔
      FuelledWalk.Walks (ConvertibleAt doc) (GoesOnTo doc) fuel 1 := by
  have hget : yaml_document_get_node doc 1 = some root := hroot
  have hfollows := (Slot.root (b := ⟨heap, none⟩)).follows_walk doc fuel root
  rw [← walk_eq_ok_iff hget, yaml2JSON, hroot]
  dsimp only
  cases hwalk : walk doc fuel root with
  | error fault =>
    rw [hwalk] at hfollows
    refine iff_of_false ?_ fun h => (by cases h)
    rintro ⟨result, hrun⟩
    obtain ⟨r, hr, -⟩ := Exec.bind_eq_ok.mp hrun
    rw [hr] at hfollows
    cases hfollows
  | ok u =>
    rw [hwalk] at hfollows
    obtain ⟨b', hrun, -⟩ := hfollows
    obtain ⟨r, hr, -⟩ := Exec.bind_eq_ok.mp hrun
    exact iff_of_true ⟨(r.1, r.2.heap), by rw [hr]; rfl⟩ rfl

/-- The conversion of a document returns exactly when the document has a root, from which no
cycle is reached and nothing that the code has no meaning for. -/
theorem yaml2JSON_returns_iff (heap : List JsonNode) (doc : YamlDocument) :
    (∃ fuel result, yaml2JSON fuel heap doc = .ok result) ↔
      doc.nodes ≠ [] ∧ ∀ i, ReflTransGen (GoesOnTo doc) 1 i →
        ConvertibleAt doc i ∧ ¬ TransGen (GoesOnTo doc) i i := by
  cases hnodes : doc.nodes with
  | nil =>
    refine iff_of_false ?_ fun h => h.1 rfl
    rintro ⟨fuel, result, hrun⟩
    have hroot : yaml_document_get_root_node doc = none := by
      rw [yaml_document_get_root_node, hnodes]
      rfl
    rw [yaml2JSON, hroot] at hrun
    cases hrun
  | cons root nodes =>
    have hroot : yaml_document_get_root_node doc = some root := by
      rw [yaml_document_get_root_node, hnodes]
      rfl
    rw [and_iff_right (List.cons_ne_nil _ _),
      ← FuelledWalk.exists_walks_iff (finite_reached doc 1)]
    exact exists_congr fun fuel => yaml2JSON_eq_ok_iff heap fuel hroot

/-- `&a [*a]`: the sequence is its own element. -/
def selfDocument : YamlDocument := ⟨[.sequence [1]]⟩

theorem not_yaml2JSON_returns :
    ¬ ∀ doc : YamlDocument, doc.nodes ≠ [] → ∃ fuel result, yaml2JSON fuel [] doc = .ok result := by
  intro h
  obtain ⟨fuel, hrun⟩ := h selfDocument (List.cons_ne_nil _ _)
  have hself : GoesOnTo selfDocument 1 1 := ⟨.sequence [1], rfl, List.mem_singleton_self 1, rfl⟩
  exact ((yaml2JSON_eq_ok_iff [] fuel rfl).mp hrun).not_cycle (.single hself)

end ZoweCommon
