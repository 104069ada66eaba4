import ZoweCommon.Yaml.ReaderCorrect

/-! What becomes of a document as a whole. -/
namespace ZoweCommon

open CLibrary CString YamlTree

theorem ends_readInt (data : List Byte) : (readInt data).Ends := by
  have hfold : ∀ (data : List Byte) (acc : ℤ), Exec.Ends (data.foldlM (fun (val64 : ℤ) c =>
      if isDecimal c then
        let next := 10 * val64 + (c.toNat - 0x30)
        if next < 2 ^ 63 then (return next : Exec ℤ) else throw .undefinedBehaviour
      else return val64) acc) := by
    intro data
    induction data with
    | nil => exact fun acc => .ok acc
    | cons c data ih =>
      intro acc
      rw [List.foldlM_cons]
      apply Exec.Ends.bind
      · dsimp only
        split_ifs
        · exact .ok _
        · exact nofun
        · exact .ok _
      · exact fun acc _ => ih acc
  exact (hfold data 0).bind fun _ _ => .ok _

theorem ends_scalarPart (tag : CString) (value : List Byte) (style : YamlScalarStyle) :
    (scalarPart tag value style).Ends := by
  have htemplate : ∀ text, (templatePart text).Ends := by
    intro text
    unfold templatePart
    split
    · exact .ok _
    · apply Exec.Ends.bind
      · unfold jsonBufferTerminateString
        split_ifs
        · exact .ok _
        · exact nofun
      · exact fun _ _ => .ok _
  unfold scalarPart
  dsimp only
  split_ifs
  · exact .ok _
  · exact (ends_readInt _).bind fun _ _ => .ok _
  · exact .ok _
  · exact .ok _
  · exact htemplate _
  · exact .ok _
  · exact .ok _
  · exact .ok _

theorem ends_keyPart (t : YamlTree) : t.keyPart.Ends := by
  cases t with
  | scalar tag value style =>
    unfold keyPart
    dsimp only
    split_ifs
    · exact .ok _
    · exact nofun
    · exact .ok _
  | sequence items => exact .ok _
  | mapping pairs => exact .ok _

theorem ends_part (t : YamlTree) : t.part.Ends := by
  induction t using YamlTree.values_induction with
  | scalar tag value style => exact ends_scalarPart tag value style
  | sequence items ih =>
    have hitems : (itemsParts items).Ends := by
      induction items with
      | nil => exact .ok _
      | cons item items ihs =>
        have hrest := ihs fun t ht => ih t (List.mem_cons_of_mem _ ht)
        exact (ih item List.mem_cons_self).bind fun _ _ => hrest.bind fun _ _ => .ok _
    exact hitems.bind fun _ _ => .ok _
  | mapping pairs ih =>
    have hpairs : (pairsParts pairs).Ends := by
      induction pairs with
      | nil => exact .ok _
      | cons p pairs ihs =>
        obtain ⟨keyNode, valueNode⟩ := p
        have hrest := ihs fun p hp => ih p (List.mem_cons_of_mem _ hp)
        have hvalue := ih (keyNode, valueNode) List.mem_cons_self
        rw [pairsParts]
        apply (ends_keyPart keyNode).bind
        intro key _
        cases key with
        | none => exact hrest
        | some key => exact hvalue.bind fun _ _ => hrest.bind fun _ _ => .ok _
    exact hpairs.bind fun _ _ => .ok _

/-- A document has no meaning, or is converted as its parts are: what cannot be converted is left
out of its sequence or mapping, and only at the root it is a null pointer that is returned. -/
theorem yaml2JSON_converts {fuel : ℕ} {doc : YamlDocument} {t : YamlTree} (hfuel : t.height < fuel)
    (hrep : t.Rep doc 1) (heap : List JsonNode) :
    (t.part = .error .undefinedBehaviour ∧ yaml2JSON fuel heap doc = .error .undefinedBehaviour) ∨
    ∃ value heap', t.part = .ok value ∧
      yaml2JSON fuel heap doc = .ok (rootResult heap t value, heap') ∧
      (∀ j, value = some j → Json.Rep heap' {i | heap.length ≤ i} heap.length j) ∧
      ∀ i < heap.length, heap'[i]? = heap[i]? := by
  have heq := yaml2JSON_eq hfuel hrep heap
  cases hpart : t.part with
  | error fault =>
    have hends := ends_part t
    rw [hpart] at heq hends
    cases fault with
    | nonTermination => exact absurd rfl hends
    | undefinedBehaviour => exact .inl ⟨rfl, heq⟩
  | ok value =>
    rw [hpart] at heq
    obtain ⟨heap', hrun, hkept, htree⟩ := heq
    exact .inr ⟨value, heap', rfl, hrun, htree, hkept⟩

/-- A sequence of a `float`, which is left out, and a number. -/
def floatDocument : YamlDocument := ⟨[.sequence [2, 3],
  .scalar YAML_FLOAT_TAG (ascii "1.5") .YAML_PLAIN_SCALAR_STYLE,
  .scalar YAML_STR_TAG (ascii "7") .YAML_PLAIN_SCALAR_STYLE]⟩

theorem yaml2JSON_converts_float :
    ∃ heap', yaml2JSON 2 [] floatDocument = .ok (some 0, heap') ∧
      Json.Rep heap' {i | 0 ≤ i} 0 (.array [.scalar (.int64 7)]) := by
  let t : YamlTree := .sequence [.scalar YAML_FLOAT_TAG (ascii "1.5") .YAML_PLAIN_SCALAR_STYLE,
    .scalar YAML_STR_TAG (ascii "7") .YAML_PLAIN_SCALAR_STYLE]
  have hrep : t.Rep floatDocument 1 := ⟨[2, 3], rfl, 2, [3], rfl, rfl, 3, [], rfl, rfl, rfl⟩
  have hvalue : t.part = .ok (some (.array [.scalar (.int64 7)])) := rfl
  rcases yaml2JSON_converts (show t.height < 2 by decide) hrep [] with
    ⟨hpart, -⟩ | ⟨value, heap', hpart, hrun, htree, -⟩
  · rw [hvalue] at hpart
    exact absurd hpart nofun
  · rw [hvalue, Except.ok.injEq] at hpart
    subst hpart
    exact ⟨heap', hrun, htree _ rfl⟩

/-- One element of two. -/
theorem yaml2JSON_float_left_out :
    yaml2JSON 2 [] floatDocument = .ok (some 0, [.array [1], .scalar (.int64 7)]) := by
  decide +kernel

end ZoweCommon
