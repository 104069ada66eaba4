import ZoweCommon.Json.Memory
import ZoweCommon.Json.MergeTree

/-! `copyJson` copies and `jsonMerge` merges: each terminates, builds the tree it should
from new nodes, and leaves the trees it reads alone. -/
namespace ZoweCommon
namespace JsonBuilder

open Json

variable {b : JsonBuilder} {parent : Option ℕ} {parentKey : Option CString} {S : Set ℕ}
  {flags : BitVec 32}

theorem node_of_getElem? {json : ℕ} {node : JsonNode} (h : b.heap[json]? = some node) :
    b.node json = .ok node := by
  unfold JsonBuilder.node
  rw [h]
  rfl

/-- With this much fuel, `copyJson` builds a copy of `t` wherever it finds `t`. -/
def Copies (fuel : ℕ) (t : Json) : Prop :=
  ∀ ⦃b : JsonBuilder⦄ ⦃parent : Option ℕ⦄ ⦃parentKey : Option CString⦄ ⦃S : Set ℕ⦄ ⦃json : ℕ⦄,
    Slot b parent parentKey → Readable b parent S → Rep b.heap S json t →
    ∃ b', copyJson fuel b parent parentKey json = .ok b' ∧ Built b b' parent parentKey t

section Loops

variable {b₀ : JsonBuilder} {fuel : ℕ}

theorem Built.copy_elements {pre elements : List Json} {es : List ℕ}
    (h : Built b₀ b parent parentKey (.array pre)) (hread : Readable b₀ parent S)
    (hes : RepElements b₀.heap S es elements) (hcopy : ∀ t ∈ elements, Copies fuel t) :
    ∃ b', es.foldlM (fun b item => copyJson fuel b (some b₀.heap.length) none item) b = .ok b' ∧
      Built b₀ b' parent parentKey (.array (pre ++ elements)) := by
  rw [repElements_iff] at hes
  refine Exec.foldlM_ok (I := fun done b => Built b₀ b parent parentKey (.array done)) hes ?_ h
  intro done p t b ht hp hdone
  obtain ⟨b', hrun, hbuilt⟩ :=
    hcopy t ht hdone.slot_element (hdone.readable hread) (hdone.source hread hp)
  exact ⟨b', hrun, hdone.push_element hbuilt⟩

theorem Built.copy_properties {pre props : List (CString × Json)} {ps : List (CString × ℕ)}
    (h : Built b₀ b parent parentKey (.object pre)) (hread : Readable b₀ parent S)
    (hps : RepProperties b₀.heap S ps props) (hcopy : ∀ p ∈ props, Copies fuel p.2) :
    ∃ b', ps.foldlM (fun b p => copyJson fuel b (some b₀.heap.length) (some p.1) p.2) b = .ok b' ∧
      Built b₀ b' parent parentKey (.object (pre ++ props)) := by
  rw [repProperties_iff] at hps
  refine Exec.foldlM_ok (I := fun done b => Built b₀ b parent parentKey (.object done)) hps ?_ h
  rintro done ⟨key, p⟩ ⟨_, t⟩ b ht ⟨rfl, hp⟩ hdone
  obtain ⟨b', hrun, hbuilt⟩ :=
    hcopy _ ht (hdone.slot_property key) (hdone.readable hread) (hdone.source hread hp)
  exact ⟨b', hrun, hdone.push_property hbuilt⟩

end Loops

/-- A copy is made as soon as the fuel exceeds the height of the tree. -/
theorem copies {t : Json} : ∀ {fuel : ℕ}, t.height < fuel → Copies fuel t := by
  induction t using parts_induction with
  | scalar s =>
    intro fuel hfuel b parent parentKey S json hslot _ hrep
    obtain ⟨fuel, rfl⟩ : ∃ n, fuel = n + 1 := Nat.exists_eq_succ_of_ne_zero (by omega)
    obtain ⟨b', hrun, hbuilt⟩ := hslot.build_scalar s
    refine ⟨b', ?_, hbuilt⟩
    rw [copyJson, node_of_getElem? hrep.2]
    cases s <;>
      simp [jsonBuildBool, jsonBuildNull, jsonBuildDouble, jsonBuildInt64, jsonBuildInt,
        jsonBuildString, hrun]
  | object props ih =>
    intro fuel hfuel b parent parentKey S json hslot hread hrep
    obtain ⟨fuel, rfl⟩ : ∃ n, fuel = n + 1 := Nat.exists_eq_succ_of_ne_zero (by omega)
    obtain ⟨-, ps, hnode, hprops⟩ := hrep
    obtain ⟨b₁, hrun₁, hbuilt₁⟩ := hslot.jsonBuildObject
    have hcopy : ∀ p ∈ props, Copies fuel p.2 := by
      intro p hp
      have := height_lt_object hp
      exact ih p hp (by omega)
    obtain ⟨b₂, hrun₂, hbuilt₂⟩ := hbuilt₁.copy_properties hread hprops hcopy
    refine ⟨b₂, ?_, hbuilt₂⟩
    rw [copyJson, node_of_getElem? hnode]
    simp only [Exec.ok_bind, hrun₁, hrun₂]
  | array elements ih =>
    intro fuel hfuel b parent parentKey S json hslot hread hrep
    obtain ⟨fuel, rfl⟩ : ∃ n, fuel = n + 1 := Nat.exists_eq_succ_of_ne_zero (by omega)
    obtain ⟨-, es, hnode, helements⟩ := hrep
    obtain ⟨b₁, hrun₁, hbuilt₁⟩ := hslot.jsonBuildArray
    have hcopy : ∀ t ∈ elements, Copies fuel t := by
      intro t ht
      have := height_lt_array ht
      exact ih t ht (by omega)
    obtain ⟨b₂, hrun₂, hbuilt₂⟩ := hbuilt₁.copy_elements hread helements hcopy
    refine ⟨b₂, ?_, hbuilt₂⟩
    rw [copyJson, node_of_getElem? hnode]
    simp only [Exec.ok_bind, hrun₁, hrun₂]

/-! Merging -/

/-- With this much fuel, `mergeJson1` builds the merge of `o` and `t` wherever it finds them. -/
def Merges (flags : BitVec 32) (fuel : ℕ) (o t : Json) : Prop :=
  ∀ ⦃b : JsonBuilder⦄ ⦃parent : Option ℕ⦄ ⦃parentKey : Option CString⦄ ⦃S : Set ℕ⦄
    ⦃overrides base : ℕ⦄, Slot b parent parentKey → Readable b parent S →
    Rep b.heap S overrides o → Rep b.heap S base t →
    ∃ b', mergeJson1 flags fuel b parent parentKey overrides base = .ok (0, b') ∧
      Built b b' parent parentKey (mergeTree flags o t)

theorem whileSuccess_ok {α β : Type} {R : α → β → Prop} {I : List β → JsonBuilder → Prop}
    {body : JsonBuilder → α → Exec (ℕ × JsonBuilder)} {xs : List α} {ys : List β}
    (h : List.Forall₂ R xs ys)
    (step : ∀ done x y b, y ∈ ys → R x y → I done b →
      ∃ b', body b x = .ok (0, b') ∧ I (done ++ [y]) b') :
    ∀ {done : List β} {b : JsonBuilder}, I done b →
      ∃ b', whileSuccess body b xs = .ok (0, b') ∧ I (done ++ ys) b' := by
  induction h with
  | nil =>
    intro done b hb
    exact ⟨b, rfl, by simpa using hb⟩
  | @cons x y xs ys hxy _ ih =>
    intro done b hb
    obtain ⟨b₁, hrun₁, hb₁⟩ := step done x y b List.mem_cons_self hxy hb
    obtain ⟨b₂, hrun₂, hb₂⟩ := ih (fun done x y b hy => step done x y b (List.mem_cons_of_mem _ hy)) hb₁
    refine ⟨b₂, ?_, by simpa using hb₂⟩
    simp only [whileSuccess, hrun₁, Exec.ok_bind, if_true, hrun₂]

/-- Searching a property list in memory finds what searching the tree finds. -/
theorem getPropertyValue_rep {heap : List JsonNode} {ps : List (CString × ℕ)}
    {props : List (CString × Json)} (h : RepProperties heap S ps props) (key : CString) :
    (jsonObjectGetPropertyValue ps key = none ∧ lookup props key = none) ∨
      ∃ p t, jsonObjectGetPropertyValue ps key = some p ∧ lookup props key = some t ∧
        (key, t) ∈ props ∧ Rep heap S p t := by
  induction props generalizing ps with
  | nil =>
    rw [RepProperties] at h
    rw [h]
    exact .inl ⟨rfl, rfl⟩
  | cons prop props ih =>
    obtain ⟨k, t⟩ := prop
    rw [RepProperties] at h
    obtain ⟨p, ps, rfl, hp, hps⟩ := h
    have hfind : jsonObjectGetPropertyValue ((k, p) :: ps) key =
        if k = key then some p else jsonObjectGetPropertyValue ps key := by
      unfold jsonObjectGetPropertyValue
      rw [List.find?_cons]
      by_cases hk : k = key
      · simp [hk]
      · simp [hk]
    rw [hfind, lookup_cons]
    by_cases hk : k = key
    · rw [if_pos hk, if_pos hk]
      subst hk
      exact .inr ⟨p, t, rfl, rfl, List.mem_cons_self, hp⟩
    · rw [if_neg hk, if_neg hk]
      rcases ih hps with hnone | ⟨p', t', hp', ht', hmem, hrep⟩
      · exact .inl hnone
      · exact .inr ⟨p', t', hp', ht', List.mem_cons_of_mem _ hmem, hrep⟩

theorem jsonObjectHasKey_rep {heap : List JsonNode} {ps : List (CString × ℕ)}
    {props : List (CString × Json)} (h : RepProperties heap S ps props) (key : CString) :
    jsonObjectHasKey ps key = props.any fun q => q.1 = key := by
  rw [repProperties_iff] at h
  unfold jsonObjectHasKey
  induction h with
  | nil => rfl
  | cons hq _ ih => rw [List.any_cons, List.any_cons, ih, hq.1]

theorem getElem?_rep {heap : List JsonNode} {es : List ℕ} {elements : List Json}
    (h : RepElements heap S es elements) (i : ℕ) :
    (es[i]? = none ∧ elements[i]? = none) ∨
      ∃ p t, es[i]? = some p ∧ elements[i]? = some t ∧ t ∈ elements ∧ Rep heap S p t := by
  rw [repElements_iff] at h
  by_cases hi : i < es.length
  · have hi' : i < elements.length := h.length_eq ▸ hi
    exact .inr ⟨_, _, List.getElem?_eq_getElem hi, List.getElem?_eq_getElem hi',
      List.getElem_mem hi', h.get hi hi'⟩
  · have hi' : ¬i < elements.length := h.length_eq ▸ hi
    exact .inl ⟨List.getElem?_eq_none (not_lt.mp hi), List.getElem?_eq_none (not_lt.mp hi')⟩

section Loops

variable {b₀ : JsonBuilder} {fuel : ℕ}

theorem Built.merge_base {os bs : List (CString × Json)} {ops bps : List (CString × ℕ)}
    (h : Built b₀ b parent parentKey (.object [])) (hread : Readable b₀ parent S)
    (hos : RepProperties b₀.heap S ops os) (hbs : RepProperties b₀.heap S bps bs)
    (hcopy : ∀ p ∈ bs, Copies fuel p.2) (hmerge : ∀ q ∈ os, ∀ p ∈ bs, Merges flags fuel q.2 p.2) :
    ∃ b', whileSuccess (fun b baseProp =>
        match jsonObjectGetPropertyValue ops baseProp.1 with
        | none => do
          let b ← copyJson fuel b (some b₀.heap.length) (some baseProp.1) baseProp.2
          return (0, b)
        | some overrideValue =>
          mergeJson1 flags fuel b (some b₀.heap.length) (some baseProp.1) overrideValue baseProp.2)
        b bps = .ok (0, b') ∧
      Built b₀ b' parent parentKey (.object (mergeProperties flags os bs)) := by
  have hbs' := repProperties_iff.mp hbs
  have h' : Built b₀ b parent parentKey (.object (mergeProperties flags os [])) := by
    rwa [mergeProperties]
  refine whileSuccess_ok (I := fun done b => Built b₀ b parent parentKey
    (.object (mergeProperties flags os done))) hbs' ?_ h'
  rintro done ⟨key, p⟩ ⟨_, t⟩ b ht ⟨rfl, hp⟩ hdone
  have hslot := hdone.slot_property key
  have hsource := hdone.source hread hp
  rw [mergeProperties_append, mergeProperties, mergeProperties]
  rcases getPropertyValue_rep hos key with ⟨hnone, hlookup⟩ | ⟨q, o, hsome, hlookup, ho, hq⟩
  · obtain ⟨b', hrun, hbuilt⟩ := hcopy _ ht hslot (hdone.readable hread) hsource
    refine ⟨b', ?_, ?_⟩
    · simp only [hnone, hrun]
      rfl
    · rw [hlookup]
      exact hdone.push_property hbuilt
  · obtain ⟨b', hrun, hbuilt⟩ :=
      hmerge _ ho _ ht hslot (hdone.readable hread) (hdone.source hread hq) hsource
    refine ⟨b', ?_, ?_⟩
    · simp only [hsome, hrun]
    · rw [hlookup]
      exact hdone.push_property hbuilt

/-- The loop over the overrides: what the base has no key for. -/
theorem Built.merge_overrides {pre os bs : List (CString × Json)} {ops bps : List (CString × ℕ)}
    (h : Built b₀ b parent parentKey (.object pre)) (hread : Readable b₀ parent S)
    (hos : RepProperties b₀.heap S ops os) (hbs : RepProperties b₀.heap S bps bs)
    (hcopy : ∀ p ∈ os, Copies fuel p.2) :
    ∃ b', ops.foldlM (fun b overrideProp =>
        if jsonObjectHasKey bps overrideProp.1 then return b
        else copyJson fuel b (some b₀.heap.length) (some overrideProp.1) overrideProp.2) b = .ok b' ∧
      Built b₀ b' parent parentKey
        (.object (pre ++ os.filter fun p => !bs.any fun q => q.1 = p.1)) := by
  have hos' := repProperties_iff.mp hos
  have h' : Built b₀ b parent parentKey
      (.object (pre ++ [].filter fun p : CString × Json => !bs.any fun q => q.1 = p.1)) := by
    simpa using h
  refine Exec.foldlM_ok (I := fun done b => Built b₀ b parent parentKey
    (.object (pre ++ done.filter fun p => !bs.any fun q => q.1 = p.1))) hos' ?_ h'
  rintro done ⟨key, p⟩ ⟨_, t⟩ b ht ⟨rfl, hp⟩ hdone
  simp only [jsonObjectHasKey_rep hbs]
  by_cases hkey : (bs.any fun q => q.1 = key) = true
  · rw [if_pos hkey]
    refine ⟨b, rfl, ?_⟩
    rw [List.filter_append, List.filter_cons_of_neg (by simp only [hkey]; simp)]
    simpa using hdone
  · obtain ⟨b', hrun, hbuilt⟩ :=
      hcopy _ ht (hdone.slot_property key) (hdone.readable hread) (hdone.source hread hp)
    rw [if_neg hkey]
    refine ⟨b', hrun, ?_⟩
    have hpush := hdone.push_property hbuilt
    rw [List.filter_append, List.filter_cons_of_pos (by simp only [hkey]; simp), ← List.append_assoc]
    exact hpush

/-- The loop that merges two arrays in place. -/
theorem Built.merge_elements {os bs : List Json} {oes bes : List ℕ}
    (h : Built b₀ b parent parentKey (.array [])) (hread : Readable b₀ parent S)
    (hos : RepElements b₀.heap S oes os) (hbs : RepElements b₀.heap S bes bs)
    (hcopyO : ∀ t ∈ os, Copies fuel t) (hcopyB : ∀ t ∈ bs, Copies fuel t)
    (hmerge : ∀ o ∈ os, ∀ t ∈ bs, Merges flags fuel o t) :
    ∃ b', (List.range (max bes.length oes.length)).foldlM (fun b i =>
        match oes[i]?, bes[i]? with
        | some valueO, some valueB => do
          let (_, b) ← mergeJson1 flags fuel b (some b₀.heap.length) none valueO valueB
          return b
        | some valueO, none => copyJson fuel b (some b₀.heap.length) none valueO
        | none, some valueB => copyJson fuel b (some b₀.heap.length) none valueB
        | none, none => return b) b = .ok b' ∧
      Built b₀ b' parent parentKey (.array (mergeElements flags os bs)) := by
  have hlenO := (repElements_iff.mp hos).length_eq
  have hlenB := (repElements_iff.mp hbs).length_eq
  have hrange : List.Forall₂ (fun i t => (mergeElements flags os bs)[i]? = some t)
      (List.range (max bes.length oes.length)) (mergeElements flags os bs) := by
    refine List.forall₂_iff_get.mpr ⟨?_, fun i hi hi' => ?_⟩
    · rw [List.length_range, length_mergeElements, hlenO, hlenB]
    · simp
  refine Exec.foldlM_ok (I := fun done b => Built b₀ b parent parentKey (.array done)) hrange ?_ h
  intro done i t b _ hi hdone
  have hslot := hdone.slot_element
  rw [getElem?_mergeElements] at hi
  rcases getElem?_rep hos i with ⟨ho, ho'⟩ | ⟨q, o, ho, ho', hmemO, hq⟩ <;>
    rcases getElem?_rep hbs i with ⟨hb, hb'⟩ | ⟨p, u, hb, hb', hmemB, hp⟩
  · rw [ho', hb'] at hi
    cases hi
  · rw [ho', hb', Option.some_inj] at hi
    subst hi
    obtain ⟨b', hrun, hbuilt⟩ :=
      hcopyB _ hmemB hslot (hdone.readable hread) (hdone.source hread hp)
    exact ⟨b', by simp only [ho, hb, hrun], hdone.push_element hbuilt⟩
  · rw [ho', hb', Option.some_inj] at hi
    subst hi
    obtain ⟨b', hrun, hbuilt⟩ :=
      hcopyO _ hmemO hslot (hdone.readable hread) (hdone.source hread hq)
    exact ⟨b', by simp only [ho, hb, hrun], hdone.push_element hbuilt⟩
  · rw [ho', hb', Option.some_inj] at hi
    subst hi
    obtain ⟨b', hrun, hbuilt⟩ := hmerge _ hmemO _ hmemB hslot (hdone.readable hread)
      (hdone.source hread hq) (hdone.source hread hp)
    refine ⟨b', ?_, hdone.push_element hbuilt⟩
    simp only [ho, hb, hrun]
    rfl

end Loops

/-- Where the kinds differ, the overrides are copied. -/
theorem Copies.mergeJson1 {fuel : ℕ} {o t : Json} (hcopy : Copies fuel o)
    (hobject : ¬(o.isObject = true ∧ t.isObject = true))
    (harray : ¬(o.isArray = true ∧ t.isArray = true)) : Merges flags (fuel + 1) o t := by
  intro b parent parentKey S overrides base hslot hread ho ht
  obtain ⟨b', hrun, hbuilt⟩ := hcopy hslot hread ho
  rw [mergeTree_of_not_same hobject harray]
  refine ⟨b', ?_, hbuilt⟩
  unfold JsonBuilder.mergeJson1
  cases t with
  | scalar s =>
    rw [node_of_getElem? ht.2]
    simp only [Exec.ok_bind, hrun]
    rfl
  | object bs =>
    obtain ⟨-, ps, hnode, -⟩ := ht
    rw [node_of_getElem? hnode]
    cases o with
    | object os => exact absurd ⟨rfl, rfl⟩ hobject
    | scalar s =>
      simp only [Exec.ok_bind, node_of_getElem? ho.2, hrun]
      rfl
    | array os =>
      obtain ⟨-, es, hnode', -⟩ := ho
      simp only [Exec.ok_bind, node_of_getElem? hnode', hrun]
      rfl
  | array bs =>
    obtain ⟨-, es, hnode, -⟩ := ht
    rw [node_of_getElem? hnode]
    cases o with
    | array os => exact absurd ⟨rfl, rfl⟩ harray
    | scalar s =>
      simp only [Exec.ok_bind, node_of_getElem? ho.2, hrun]
      rfl
    | object os =>
      obtain ⟨-, ps, hnode', -⟩ := ho
      simp only [Exec.ok_bind, node_of_getElem? hnode', hrun]
      rfl

/-- The merge of two objects: the base first, then what only the overrides have. -/
theorem merges_object {fuel : ℕ} {os bs : List (CString × Json)}
    (hcopyO : ∀ p ∈ os, Copies fuel p.2) (hcopyB : ∀ p ∈ bs, Copies fuel p.2)
    (hmerge : ∀ q ∈ os, ∀ p ∈ bs, Merges flags fuel q.2 p.2) :
    Merges flags (fuel + 1) (.object os) (.object bs) := by
  intro b parent parentKey S overrides base hslot hread ho ht
  obtain ⟨-, ops, hnodeO, hos⟩ := ho
  obtain ⟨-, bps, hnodeB, hbs⟩ := ht
  obtain ⟨b₁, hrun₁, hbuilt₁⟩ := hslot.jsonBuildObject
  obtain ⟨b₂, hrun₂, hbuilt₂⟩ := hbuilt₁.merge_base hread hos hbs hcopyB hmerge
  obtain ⟨b₃, hrun₃, hbuilt₃⟩ := hbuilt₂.merge_overrides hread hos hbs hcopyO
  rw [mergeTree]
  refine ⟨b₃, ?_, hbuilt₃⟩
  rw [JsonBuilder.mergeJson1, node_of_getElem? hnodeB]
  simp only [Exec.ok_bind, node_of_getElem? hnodeO, hrun₁]
  refine Exec.bind_eq_ok.mpr ⟨(0, b₂), hrun₂, ?_⟩
  simp only [ne_eq, not_true_eq_false, if_false, hrun₃]
  rfl

/-- The merge of two arrays, by the policy. -/
theorem merges_array {fuel : ℕ} {os bs : List Json}
    (hcopyO : ∀ t ∈ os, Copies fuel t) (hcopyB : ∀ t ∈ bs, Copies fuel t)
    (hmerge : ∀ o ∈ os, ∀ t ∈ bs, Merges flags fuel o t) :
    Merges flags (fuel + 1) (.array os) (.array bs) := by
  intro b parent parentKey S overrides base hslot hread ho ht
  obtain ⟨-, oes, hnodeO, hos⟩ := ho
  obtain ⟨-, bes, hnodeB, hbs⟩ := ht
  obtain ⟨b₁, hrun₁, hbuilt₁⟩ := hslot.jsonBuildArray
  rw [mergeTree_array, JsonBuilder.mergeJson1, node_of_getElem? hnodeB]
  simp only [Exec.ok_bind, node_of_getElem? hnodeO, hrun₁]
  unfold combineArrays
  dsimp only
  by_cases hconcatenate :
      flags &&& JSON_MERGE_FLAG_ARRAY_POLICY_MASK = JSON_MERGE_FLAG_CONCATENATE_ARRAYS
  · obtain ⟨b₂, hrun₂, hbuilt₂⟩ := hbuilt₁.copy_elements hread hbs hcopyB
    obtain ⟨b₃, hrun₃, hbuilt₃⟩ := hbuilt₂.copy_elements hread hos hcopyO
    rw [if_pos hconcatenate, if_pos hconcatenate, hrun₂, Exec.ok_bind, hrun₃]
    exact ⟨b₃, rfl, hbuilt₃⟩
  rw [if_neg hconcatenate, if_neg hconcatenate]
  by_cases hinPlace :
      flags &&& JSON_MERGE_FLAG_ARRAY_POLICY_MASK = JSON_MERGE_FLAG_MERGE_IN_PLACE
  · obtain ⟨b₂, hrun₂, hbuilt₂⟩ := hbuilt₁.merge_elements hread hos hbs hcopyO hcopyB hmerge
    rw [if_pos hinPlace, if_pos hinPlace]
    exact ⟨b₂, Exec.bind_eq_ok.mpr ⟨b₂, hrun₂, rfl⟩, hbuilt₂⟩
  rw [if_neg hinPlace, if_neg hinPlace]
  by_cases htakeBase : flags &&& JSON_MERGE_FLAG_ARRAY_POLICY_MASK = JSON_MERGE_FLAG_TAKE_BASE
  · obtain ⟨b₂, hrun₂, hbuilt₂⟩ := hbuilt₁.copy_elements hread hbs hcopyB
    rw [if_pos htakeBase, if_pos htakeBase, hrun₂]
    exact ⟨b₂, rfl, hbuilt₂⟩
  · obtain ⟨b₂, hrun₂, hbuilt₂⟩ := hbuilt₁.copy_elements hread hos hcopyO
    rw [if_neg htakeBase, if_neg htakeBase, hrun₂]
    exact ⟨b₂, rfl, hbuilt₂⟩

/-- A merge is made as soon as the fuel exceeds both heights. -/
theorem merges {t : Json} :
    ∀ {o : Json} {fuel : ℕ}, o.height < fuel → t.height < fuel → Merges flags (fuel + 1) o t := by
  induction t using parts_induction with
  | scalar s =>
    intro o fuel ho _
    exact (copies ho).mergeJson1 (fun h => by cases h.2) (fun h => by cases h.2)
  | object bs ih =>
    intro o fuel ho ht
    by_cases hobject : o.isObject = true
    · obtain ⟨os, rfl⟩ : ∃ os, o = .object os := isObject_iff.mp hobject
      obtain ⟨fuel, rfl⟩ : ∃ n, fuel = n + 1 := Nat.exists_eq_succ_of_ne_zero (by omega)
      apply merges_object
      · intro p hp
        exact copies (by have := height_lt_object hp; omega)
      · intro p hp
        exact copies (by have := height_lt_object hp; omega)
      · intro q hq p hp
        have hq := height_lt_object hq
        have hlt := height_lt_object hp
        exact ih p hp (by omega) (by omega)
    · exact (copies ho).mergeJson1 (fun h => hobject h.1) (fun h => by cases h.2)
  | array bs ih =>
    intro o fuel ho ht
    by_cases harray : o.isArray = true
    · obtain ⟨os, rfl⟩ : ∃ os, o = .array os := isArray_iff.mp harray
      obtain ⟨fuel, rfl⟩ : ∃ n, fuel = n + 1 := Nat.exists_eq_succ_of_ne_zero (by omega)
      apply merges_array
      · intro t ht
        exact copies (by have := height_lt_array ht; omega)
      · intro t ht
        exact copies (by have := height_lt_array ht; omega)
      · intro o ho t ht
        have ho := height_lt_array ho
        have hlt := height_lt_array ht
        exact ih t ht (by omega) (by omega)
    · exact (copies ho).mergeJson1 (fun h => by cases h.2) (fun h => harray h.1)

end JsonBuilder

open Json JsonBuilder

/-- What `jsonMerge` returns is a new tree, the merge of the two it reads, which stay as they
were. -/
theorem jsonMerge_ok {flags : BitVec 32} {fuel : ℕ} {heap : List JsonNode} {overrides base : ℕ}
    {o b : Json} (ho : Rep heap {i | i < heap.length} overrides o)
    (hb : Rep heap {i | i < heap.length} base b) (hfuel : max o.height b.height + 1 < fuel) :
    ∃ root heap', jsonMerge flags fuel heap overrides base = .ok (some root, 0, heap') ∧
      Rep heap' {i | heap.length ≤ i} root (mergeTree flags o b) ∧
      heap.length ≤ heap'.length ∧ ∀ i < heap.length, heap'[i]? = heap[i]? := by
  obtain ⟨fuel, rfl⟩ : ∃ n, fuel = n + 1 := Nat.exists_eq_succ_of_ne_zero (by omega)
  have hmerges : Merges flags (fuel + 1) o b := merges (by omega) (by omega)
  have hread : Readable ⟨heap, none⟩ none {i | i < heap.length} := by
    intro i hi
    exact ⟨hi, by simp⟩
  obtain ⟨b', hrun, hkept, hplaced, hrep⟩ := hmerges .root hread ho hb
  cases hplaced with
  | root hroot =>
    refine ⟨heap.length, b'.heap, ?_, ?_, hkept.length_le, ?_⟩
    · unfold jsonMerge
      rw [hrun, Exec.ok_bind]
      simp only [ne_eq, not_true_eq_false, if_false, hroot]
      rfl
    · refine rep_iff.mpr ⟨le_refl heap.length, hrep.mono fun i hi => ?_⟩
      exact Nat.le_of_lt hi
    · intro i hi
      exact hkept.heap i hi (by simp)

/-- Merging obeys the override law at every depth and leaves both sides as they were. -/
theorem jsonMerge_overrideLaw {flags : BitVec 32} {fuel : ℕ} {heap : List JsonNode}
    {overrides base : ℕ} {o b : Json} (ho : Rep heap {i | i < heap.length} overrides o)
    (hb : Rep heap {i | i < heap.length} base b) (hokeys : o.KeysNodup) (hbkeys : b.KeysNodup)
    (hfuel : max o.height b.height + 1 < fuel) :
    ∃ root heap' merged, jsonMerge flags fuel heap overrides base = .ok (some root, 0, heap') ∧
      Rep heap' {i | heap.length ≤ i} root merged ∧ merged.KeysNodup ∧
      OverrideLaw flags o b merged ∧ (∀ i < heap.length, heap'[i]? = heap[i]?) ∧
      Rep heap' {i | i < heap.length} overrides o ∧ Rep heap' {i | i < heap.length} base b := by
  obtain ⟨root, heap', hrun, hrep, -, hkept⟩ := jsonMerge_ok ho hb hfuel
  have hold : ∀ i ∈ {i | i < heap.length}, ∀ node, heap[i]? = some node → heap'[i]? = some node := by
    intro i hi node hnode
    rw [hkept i hi, hnode]
  exact ⟨root, heap', mergeTree flags o b, hrun, hrep, hokeys.mergeTree hbkeys,
    overrideLaw_mergeTree flags o b, hkept, ho.transport subset_rfl hold,
    hb.transport subset_rfl hold⟩

theorem jsonMerge_overrideLaw_one_key :
    let heap : List JsonNode := [.scalar (.number 1), .object [(CString.ofBytes [97], 0)],
      .scalar .null, .object [(CString.ofBytes [98], 2)]]
    let o := Json.object [(CString.ofBytes [97], .scalar (.number 1))]
    let b := Json.object [(CString.ofBytes [98], .scalar .null)]
    ∃ root heap' merged, jsonMerge 0 3 heap 1 3 = .ok (some root, 0, heap') ∧
      Rep heap' {i | 4 ≤ i} root merged ∧ merged.KeysNodup ∧ OverrideLaw 0 o b merged ∧
      (∀ i < 4, heap'[i]? = heap[i]?) ∧ Rep heap' {i | i < 4} 1 o ∧ Rep heap' {i | i < 4} 3 b := by
  intro heap o b
  have ho : Rep heap {i | i < heap.length} 1 o := by
    simp [heap, o, Json.Rep, Json.RepProperties]
  have hb : Rep heap {i | i < heap.length} 3 b := by
    simp [heap, b, Json.Rep, Json.RepProperties]
  have hokeys : o.KeysNodup :=
    .object (by simp) fun p hp => by rw [List.mem_singleton.mp hp]; exact .scalar _
  have hbkeys : b.KeysNodup :=
    .object (by simp) fun p hp => by rw [List.mem_singleton.mp hp]; exact .scalar _
  exact jsonMerge_overrideLaw ho hb hokeys hbkeys (by decide)

end ZoweCommon
