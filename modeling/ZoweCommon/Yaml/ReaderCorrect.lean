import ZoweCommon.Json.Memory
import ZoweCommon.Yaml.Tree

/-! `yaml2JSON` builds the JSON that a document stands for. -/
namespace ZoweCommon

open CLibrary CString YamlTree

theorem numeral_cons (c : Byte) (data : List Byte) :
    YamlTree.numeral (c :: data) = (c.toNat - 0x30) * 10 ^ data.length + YamlTree.numeral data := by
  have happend := Decimal.value_append [c.toNat - 0x30] (data.map fun c => c.toNat - 0x30)
  rw [List.singleton_append, List.length_map] at happend
  unfold YamlTree.numeral
  rw [List.map_cons, happend]
  simp [Decimal.value]

/-- Digit by digit, the number that was read is followed by what is left. -/
theorem readInt_fold {data : List Byte} (hdecimal : data.all isDecimal = true) :
    ∀ {acc : ℕ}, acc * 10 ^ data.length + YamlTree.numeral data < 2 ^ 63 →
    data.foldlM (fun (val64 : ℤ) c =>
      if isDecimal c then
        let next := 10 * val64 + (c.toNat - 0x30)
        if next < 2 ^ 63 then (return next : Exec ℤ) else throw .undefinedBehaviour
      else return val64) acc = .ok (acc * 10 ^ data.length + YamlTree.numeral data : ℕ) := by
  induction data with
  | nil =>
    intro acc _
    simp [YamlTree.numeral, Decimal.value]
  | cons c data ih =>
    intro acc hlt
    rw [List.all_cons, Bool.and_eq_true] at hdecimal
    obtain ⟨hc, hdata⟩ := hdecimal
    have hdigit : 0x30 ≤ c.toNat := by
      unfold isDecimal at hc
      rw [Bool.and_eq_true, decide_eq_true_eq] at hc
      exact hc.1
    have hnext : (10 * (acc : ℤ) + (c.toNat - 0x30)) = (10 * acc + (c.toNat - 0x30) : ℕ) := by
      push_cast [hdigit]
      rfl
    have hvalue : (10 * acc + (c.toNat - 0x30)) * 10 ^ data.length + YamlTree.numeral data =
        acc * 10 ^ (c :: data).length + YamlTree.numeral (c :: data) := by
      rw [numeral_cons, List.length_cons]
      ring
    have hpos : 1 ≤ 10 ^ data.length := Nat.one_le_pow _ _ (by omega)
    have hle : 10 * acc + (c.toNat - 0x30) ≤ acc * 10 ^ (c :: data).length + YamlTree.numeral (c :: data) := by
      rw [← hvalue]
      calc 10 * acc + (c.toNat - 0x30) ≤ (10 * acc + (c.toNat - 0x30)) * 10 ^ data.length :=
            Nat.le_mul_of_pos_right _ hpos
        _ ≤ _ := Nat.le_add_right _ _
    rw [List.foldlM_cons, if_pos hc, hnext]
    dsimp only
    rw [if_pos (by exact_mod_cast hle.trans_lt hlt)]
    show List.foldlM _ _ data = _
    rw [ih hdata (by rwa [hvalue]), hvalue]

theorem readInt_ok {data : List Byte} (hdecimal : data.all isDecimal = true)
    (hlt : YamlTree.numeral data < 2 ^ 63) :
    readInt data = .ok (BitVec.ofNat 64 (YamlTree.numeral data), true) := by
  have hfold := @readInt_fold data hdecimal 0 (by rwa [Nat.zero_mul, Nat.zero_add])
  rw [Nat.zero_mul, Nat.zero_add] at hfold
  unfold readInt
  have hzero : ((0 : ℕ) : ℤ) = 0 := rfl
  rw [hzero] at hfold
  rw [hfold, Exec.ok_bind, hdecimal]
  rfl

theorem isSyntacticallyInteger_all {data : List Byte} (h : isSyntacticallyInteger data = true) :
    data.all isDecimal = true := by
  unfold isSyntacticallyInteger at h
  split_ifs at h
  exact h

theorem isSyntacticallyNull_of_integer {data : List Byte} (h : isSyntacticallyInteger data = true) :
    isSyntacticallyNull data = false := by
  have hall := isSyntacticallyInteger_all h
  have hlength : data.length ≠ 0 := by
    intro hzero
    unfold isSyntacticallyInteger at h
    rw [if_pos hzero] at h
    exact Bool.false_ne_true h
  have hword : ∀ word : List Byte, word.all isDecimal = false → data ≠ word := by
    rintro word hfalse rfl
    rw [hall] at hfalse
    exact Bool.false_ne_true hfalse.symm
  unfold isSyntacticallyNull
  simp only [Bool.or_eq_false_iff, decide_eq_false_iff_not]
  exact ⟨⟨⟨⟨hlength, hword _ (by decide)⟩, hword _ (by decide)⟩, hword _ (by decide)⟩,
    hword _ (by decide)⟩

/-! None of the texts of nulls, integers and truth values has the character that begins a
template. -/

theorem isSyntacticallyNull_dollar (text : List Byte) (h : isSyntacticallyNull text = true) :
    0x24 ∉ text := by
  unfold isSyntacticallyNull at h
  simp only [Bool.or_eq_true, decide_eq_true_eq, List.length_eq_zero_iff] at h
  rcases h with (((rfl | rfl) | rfl) | rfl) | rfl <;> decide

theorem isSyntacticallyInteger_dollar (text : List Byte) (h : isSyntacticallyInteger text = true) :
    0x24 ∉ text := by
  intro hmem
  have hdecimal := List.all_eq_true.mp (isSyntacticallyInteger_all h) _ hmem
  exact absurd hdecimal (by decide)

theorem isSyntacticallyBool_dollar (text : List Byte) (h : isSyntacticallyBool text = true) :
    0x24 ∉ text := by
  unfold isSyntacticallyBool isTrue isFalse at h
  simp only [Bool.or_eq_true, decide_eq_true_eq] at h
  rcases h with ((rfl | rfl) | rfl) | ((rfl | rfl) | rfl) <;> decide

namespace JsonBuilder

variable {b : JsonBuilder} {parent : Option ℕ} {parentKey : Option CString}

/-- A run that builds what `part` says, or fails as it does. The address of a template is not
returned. -/
def BuildsPart (b : JsonBuilder) (parent : Option ℕ) (parentKey : Option CString) (template : Bool)
    (run : Exec (Option ℕ × JsonBuilder)) : Exec (Option Json) → Prop
  | .error fault => run = .error fault
  | .ok none => run = .ok (none, b)
  | .ok (some j) => ∃ b', run = .ok (if template then none else some b.heap.length, b') ∧
      Built b b' parent parentKey j

theorem Slot.buildTemplateJSON_eq (h : Slot b parent parentKey) {value : List Byte} {p : JsonPrinter}
    (hsource : templateSource (makeBufferJsonPrinter makeJsonBuffer) true (ofBytes value).bytes =
      .ok p) :
    match jsonBufferTerminateString p.customObject with
    | .error fault => ZoweCommon.buildTemplateJSON b parent parentKey value = .error fault
    | .ok buffer => ∃ b', ZoweCommon.buildTemplateJSON b parent parentKey value = .ok (0, b') ∧
        Built b b' parent parentKey
          (.object [(ZOWE_INTERNAL_TYPE, .scalar (.string ZOWE_UNEVALUATED)),
            (ofBytes (ascii "source"), .scalar (.string (ofBytes buffer.data)))]) := by
  obtain ⟨b₁, hrun₁, hbuilt₁⟩ := h.jsonBuildObject
  obtain ⟨b₂, hrun₂, hbuilt₂⟩ := (hbuilt₁.slot_property ZOWE_INTERNAL_TYPE).build_scalar
    (.string ZOWE_UNEVALUATED)
  have hpush₂ := hbuilt₁.push_property hbuilt₂
  have hstring₂ : b₁.jsonBuildString (some b.heap.length) (some ZOWE_INTERNAL_TYPE)
      ZOWE_UNEVALUATED.bytes = .ok (some b₁.heap.length, 0, b₂) := by
    unfold jsonBuildString
    rw [ofBytes_bytes]
    exact hrun₂
  unfold ZoweCommon.buildTemplateJSON
  rw [hsource]
  dsimp only
  rw [hrun₁, Exec.ok_bind]
  dsimp only
  rw [if_neg (by decide), hstring₂, Exec.ok_bind]
  dsimp only
  rw [if_neg (by decide)]
  cases jsonBufferTerminateString p.customObject with
  | error fault => rfl
  | ok buffer =>
    obtain ⟨b₃, hrun₃, hbuilt₃⟩ := (hpush₂.slot_property (ofBytes (ascii "source"))).build_scalar
      (.string (ofBytes buffer.data))
    have hstring₃ : b₂.jsonBuildString (some b.heap.length) (some (ofBytes (ascii "source")))
        buffer.data = .ok (some b₂.heap.length, 0, b₃) := hrun₃
    refine ⟨b₃, ?_, hpush₂.push_property hbuilt₃⟩
    rw [Exec.ok_bind, hstring₃]
    rfl

theorem Slot.buildTemplateJSON (h : Slot b parent parentKey) (value : List Byte) :
    BuildsPart b parent parentKey true
      (do return (none, (← buildTemplateJSON b parent parentKey value).2)) (templatePart value) := by
  unfold templatePart
  cases hsource : templateSource (makeBufferJsonPrinter makeJsonBuffer) true
      (ofBytes value).bytes with
  | error status =>
    unfold ZoweCommon.buildTemplateJSON
    rw [hsource]
    rfl
  | ok p =>
    have hbuild := h.buildTemplateJSON_eq hsource
    dsimp only
    cases hbuffer : jsonBufferTerminateString p.customObject with
    | error fault =>
      rw [hbuffer] at hbuild
      exact Exec.bind_eq_error hbuild
    | ok buffer =>
      rw [hbuffer] at hbuild
      obtain ⟨b', hrun, hbuilt⟩ := hbuild
      exact ⟨b', Exec.bind_eq_ok.mpr ⟨_, hrun, rfl⟩, hbuilt⟩

theorem not_isTemplate {tag : CString} {style : YamlScalarStyle} {value : List Byte}
    {looksLike : List Byte → Bool} (other : CString) (hother : other ≠ YAML_STR_TAG)
    (hdollar : ∀ text, looksLike text = true → 0x24 ∉ text)
    (h : tag = other ∨ (tag = YAML_STR_TAG ∧ style = .YAML_PLAIN_SCALAR_STYLE) ∧
      looksLike (value.take MAX_JSON_STRING) = true) : isTemplate tag value style = false := by
  unfold isTemplate
  rcases h with htag | ⟨-, htext⟩
  · rw [decide_eq_false (by rwa [htag]), Bool.false_and, Bool.false_and]
  · have htemplate : isSyntacticallyTemplate (value.take MAX_JSON_STRING) = false := by
      rw [← Bool.not_eq_true]
      intro hsome
      have hmem : 0x24 ∈ (ofBytes (value.take MAX_JSON_STRING)).bytes := mem_of_strstr hsome (by decide)
      exact hdollar _ htext (List.takeWhile_subset _ hmem)
    rw [htemplate, Bool.and_false, Bool.false_and]

theorem Slot.scalar2JSON (h : Slot b parent parentKey) (tag : CString) (value : List Byte)
    (style : YamlScalarStyle) : BuildsPart b parent parentKey (isTemplate tag value style)
      (do
        let (json, _, b) ← scalar2JSON b parent parentKey tag value style
        return (json, b)) (scalarPart tag value style) := by
  have hscalar : isTemplate tag value style = false → ∀ s run,
      run = b.build parent parentKey (.scalar s) →
      BuildsPart b parent parentKey (isTemplate tag value style)
        (do
          let (json, _, b) ← run
          return (json, b)) (.ok (some (.scalar s))) := by
    intro htemplate s run hrun
    obtain ⟨b', hbuild, hbuilt⟩ := h.build_scalar s
    refine ⟨b', ?_, hbuilt⟩
    rw [hrun, hbuild, htemplate]
    rfl
  unfold ZoweCommon.scalar2JSON scalarPart
  dsimp only
  by_cases hnull : tag = YAML_NULL_TAG ∨ (tag = YAML_STR_TAG ∧
      style = .YAML_PLAIN_SCALAR_STYLE) ∧ isSyntacticallyNull (value.take MAX_JSON_STRING) = true
  · rw [if_pos hnull, if_pos hnull]
    exact hscalar (not_isTemplate _ (by decide) isSyntacticallyNull_dollar hnull) .null _ rfl
  rw [if_neg hnull, if_neg hnull]
  by_cases hint : tag = YAML_INT_TAG ∨ (tag = YAML_STR_TAG ∧
      style = .YAML_PLAIN_SCALAR_STYLE) ∧ isSyntacticallyInteger (value.take MAX_JSON_STRING) = true
  · rw [if_pos hint, if_pos hint]
    cases readInt (value.take MAX_JSON_STRING) with
    | error fault => rfl
    | ok read =>
      obtain ⟨x, valid⟩ := read
      rw [Exec.ok_bind, Exec.ok_bind]
      cases valid with
      | false => rfl
      | true => exact hscalar (not_isTemplate _ (by decide) isSyntacticallyInteger_dollar hint) (.int64 x) _ rfl
  rw [if_neg hint, if_neg hint]
  by_cases hbool : tag = YAML_BOOL_TAG ∨ (tag = YAML_STR_TAG ∧
      style = .YAML_PLAIN_SCALAR_STYLE) ∧ isSyntacticallyBool (value.take MAX_JSON_STRING) = true
  · rw [if_pos hbool, if_pos hbool]
    obtain ⟨x, valid⟩ := readBool (value.take MAX_JSON_STRING)
    cases valid with
    | false => rfl
    | true => exact hscalar (not_isTemplate _ (by decide) isSyntacticallyBool_dollar hbool) (.boolean x) _ rfl
  rw [if_neg hbool, if_neg hbool]
  by_cases hstr : tag = YAML_STR_TAG
  · rw [if_pos hstr, if_pos hstr]
    have hstring : isTemplate tag value style = false →
        BuildsPart b parent parentKey (isTemplate tag value style)
          (do
            let (json, _, b) ← b.jsonBuildString parent parentKey (value.take MAX_JSON_STRING)
            return (json, b))
          (.ok (some (.scalar (.string (ofBytes (value.take MAX_JSON_STRING)))))) :=
      fun htemplate => hscalar htemplate _ _ rfl
    by_cases htext : isSyntacticallyTemplate (value.take MAX_JSON_STRING) = true
    · have htemplate : isTemplate tag value style =
          (decide (style = .YAML_DOUBLE_QUOTED_SCALAR_STYLE) ||
            decide (style = .YAML_PLAIN_SCALAR_STYLE)) := by
        unfold isTemplate
        rw [htext, decide_eq_true hstr, Bool.true_and, Bool.true_and]
      have hbuild := h.buildTemplateJSON (value.take MAX_JSON_STRING)
      rw [htemplate] at hstring ⊢
      simp only [htext, and_true]
      cases style with
      | YAML_PLAIN_SCALAR_STYLE => simpa using hbuild
      | YAML_DOUBLE_QUOTED_SCALAR_STYLE => simpa using hbuild
      | YAML_SINGLE_QUOTED_SCALAR_STYLE => rfl
      | YAML_ANY_SCALAR_STYLE => exact hstring rfl
      | YAML_LITERAL_SCALAR_STYLE => exact hstring rfl
      | YAML_FOLDED_SCALAR_STYLE => exact hstring rfl
    · have htemplate : isTemplate tag value style = false := by
        unfold isTemplate
        rw [Bool.not_eq_true] at htext
        rw [htext, Bool.and_false, Bool.false_and]
      rw [if_neg (not_and_of_not_right _ htext), if_neg (not_and_of_not_right _ htext),
        if_neg (not_and_of_not_right _ htext), if_neg (by rw [htemplate]; exact Bool.false_ne_true),
        if_neg (not_and_of_not_right _ htext)]
      exact hstring htemplate
  · rw [if_neg hstr, if_neg hstr]
    split_ifs <;> rfl

/-- With this much fuel, the node at an index is read as a tree is, wherever it goes. -/
def Reads (doc : YamlDocument) (fuel : ℕ) (index : ℤ) (t : YamlTree) : Prop :=
  ∃ node, yaml_document_get_node doc index = some node ∧
    ∀ ⦃b : JsonBuilder⦄ ⦃parent : Option ℕ⦄ ⦃parentKey : Option CString⦄,
      Slot b parent parentKey →
      BuildsPart b parent parentKey t.template (yaml2JSON1 doc fuel b parent parentKey node) t.part

section Loops

variable {b₀ : JsonBuilder} {doc : YamlDocument} {fuel : ℕ}

/-- A loop that adds what a list says after what there is, or fails as it does. -/
def BuildsParts {α : Type} (b₀ : JsonBuilder) (parent : Option ℕ) (parentKey : Option CString)
    (whole : List α → Json) (pre : List α) (run : Exec JsonBuilder) : Exec (List α) → Prop
  | .error fault => run = .error fault
  | .ok xs => ∃ b', run = .ok b' ∧ Built b₀ b' parent parentKey (whole (pre ++ xs))

theorem BuildsParts.append {α : Type} {whole : List α → Json} {pre new : List α}
    {run : Exec JsonBuilder} {parts : Exec (List α)}
    (h : BuildsParts b₀ parent parentKey whole (pre ++ new) run parts) :
    BuildsParts b₀ parent parentKey whole pre run (do return new ++ (← parts)) := by
  cases parts with
  | error fault => exact h
  | ok xs =>
    obtain ⟨b', hrun, hbuilt⟩ := h
    rw [List.append_assoc] at hbuilt
    exact ⟨b', hrun, hbuilt⟩

/-- What is not left out goes after the elements that are there. -/
theorem Built.read_items {items : List YamlTree}
    (ih : ∀ t ∈ items, ∀ {index}, t.Rep doc index → Reads doc fuel index t) :
    ∀ {indices : List ℤ} {b : JsonBuilder} {pre : List Json}, RepItems doc indices items →
    Built b₀ b parent parentKey (.array pre) →
    BuildsParts b₀ parent parentKey .array pre (indices.foldlM (fun b item =>
      match yaml_document_get_node doc item with
      | some nextNode => do
        return (← yaml2JSON1 doc fuel b (some b₀.heap.length) none nextNode).2
      | none => return b) b) (itemsParts items) := by
  induction items with
  | nil =>
    intro indices b pre hrep h
    rw [RepItems] at hrep
    rw [hrep, itemsParts]
    exact ⟨b, rfl, by rwa [List.append_nil]⟩
  | cons item items ihs =>
    intro indices b pre hrep h
    obtain ⟨index, indices', rfl, hitem, hitems⟩ := hrep
    have hrest := @ihs fun t ht => ih t (List.mem_cons_of_mem _ ht)
    obtain ⟨node, hnode, hread⟩ := ih item List.mem_cons_self hitem
    have hpart := hread h.slot_element
    rw [List.foldlM_cons, hnode, itemsParts]
    dsimp only
    cases hvalue : item.part with
    | error fault =>
      rw [hvalue] at hpart
      rw [hpart]
      rfl
    | ok value =>
      rw [hvalue] at hpart
      rw [Exec.ok_bind]
      apply BuildsParts.append
      cases value with
      | none =>
        rw [hpart, Option.toList_none, List.append_nil]
        exact hrest hitems h
      | some j =>
        obtain ⟨b', hrun', hbuilt⟩ := hpart
        rw [hrun', Option.toList_some]
        exact hrest hitems (h.push_element hbuilt)

theorem pairKey_eq {index : ℤ} {t : YamlTree} (hrep : t.Rep doc index) :
    pairKey doc index = t.keyPart := by
  unfold pairKey
  cases t with
  | scalar tag value style =>
    rw [YamlTree.Rep] at hrep
    rw [hrep]
    rfl
  | sequence items =>
    obtain ⟨indices, hnode, -⟩ := hrep
    rw [hnode]
    rfl
  | mapping pairs =>
    obtain ⟨indices, hnode, -⟩ := hrep
    rw [hnode]
    rfl

theorem Built.read_pairs {pairs : List (YamlTree × YamlTree)}
    (ih : ∀ p ∈ pairs, ∀ {index}, p.2.Rep doc index → Reads doc fuel index p.2) :
    ∀ {indices : List (ℤ × ℤ)} {b : JsonBuilder} {pre : List (CString × Json)},
    RepPairs doc indices pairs → Built b₀ b parent parentKey (.object pre) →
    BuildsParts b₀ parent parentKey .object pre (indices.foldlM (fun b pair => do
      match ← pairKey doc pair.1 with
      | some keyNative =>
        match yaml_document_get_node doc pair.2 with
        | some valueNode => do
          return (← yaml2JSON1 doc fuel b (some b₀.heap.length) (some keyNative) valueNode).2
        | none => return b
      | none => return b) b) (pairsParts pairs) := by
  induction pairs with
  | nil =>
    intro indices b pre hrep h
    rw [RepPairs] at hrep
    rw [hrep, pairsParts]
    exact ⟨b, rfl, by rwa [List.append_nil]⟩
  | cons p pairs ihs =>
    obtain ⟨keyNode, valueNode⟩ := p
    intro indices b pre hrep h
    obtain ⟨k, v, indices', rfl, hkeyNode, hvalueNode, hpairs⟩ := hrep
    have hrest := @ihs fun p hp => ih p (List.mem_cons_of_mem _ hp)
    rw [List.foldlM_cons, pairKey_eq hkeyNode, pairsParts]
    cases hkey : keyNode.keyPart with
    | error fault => rfl
    | ok key =>
      rw [Exec.ok_bind, Exec.ok_bind]
      cases key with
      | none => exact hrest hpairs h
      | some key =>
        obtain ⟨node, hnode, hread⟩ := ih (keyNode, valueNode) List.mem_cons_self hvalueNode
        have hpart := hread (h.slot_property key)
        dsimp only at hpart ⊢
        rw [hnode]
        dsimp only
        cases hvalue : valueNode.part with
        | error fault =>
          rw [hvalue] at hpart
          rw [hpart]
          rfl
        | ok value =>
          rw [hvalue] at hpart
          rw [Exec.ok_bind]
          apply BuildsParts.append
          cases value with
          | none =>
            rw [hpart, Option.toList_none, List.map_nil, List.append_nil]
            exact hrest hpairs h
          | some j =>
            obtain ⟨b', hrun', hbuilt⟩ := hpart
            rw [hrun', Option.toList_some]
            exact hrest hpairs (h.push_property hbuilt)

end Loops

theorem reads {doc : YamlDocument} {t : YamlTree} : ∀ {fuel : ℕ} {index : ℤ},
    t.height < fuel → t.Rep doc index → Reads doc fuel index t := by
  induction t using YamlTree.values_induction with
  | scalar tag value style =>
    intro fuel index hfuel hrep
    obtain ⟨fuel, rfl⟩ : ∃ n, fuel = n + 1 := Nat.exists_eq_succ_of_ne_zero (by omega)
    refine ⟨_, hrep, fun b parent parentKey hslot => ?_⟩
    rw [yaml2JSON1, part]
    exact hslot.scalar2JSON tag value style
  | sequence items ih =>
    intro fuel index hfuel hrep
    obtain ⟨fuel, rfl⟩ : ∃ n, fuel = n + 1 := Nat.exists_eq_succ_of_ne_zero (by omega)
    obtain ⟨indices, hnode, hitems⟩ := hrep
    have hreads : ∀ t ∈ items, ∀ {index}, t.Rep doc index → Reads doc fuel index t := by
      intro t ht index hrep
      have hheight := height_lt_sequence ht
      exact ih t ht (by omega) hrep
    refine ⟨_, hnode, fun b parent parentKey hslot => ?_⟩
    obtain ⟨b₁, hrun₁, hbuilt₁⟩ := hslot.jsonBuildArray
    have hloop := hbuilt₁.read_items hreads hitems
    rw [yaml2JSON1, part, hrun₁, Exec.ok_bind]
    cases hparts : itemsParts items with
    | error fault =>
      rw [hparts] at hloop
      exact Exec.bind_eq_error hloop
    | ok js =>
      rw [hparts] at hloop
      obtain ⟨b', hrun', hbuilt'⟩ := hloop
      exact ⟨b', Exec.bind_eq_ok.mpr ⟨b', hrun', rfl⟩, hbuilt'⟩
  | mapping pairs ih =>
    intro fuel index hfuel hrep
    obtain ⟨fuel, rfl⟩ : ∃ n, fuel = n + 1 := Nat.exists_eq_succ_of_ne_zero (by omega)
    obtain ⟨indices, hnode, hpairs⟩ := hrep
    have hreads : ∀ p ∈ pairs, ∀ {index}, p.2.Rep doc index → Reads doc fuel index p.2 := by
      intro p hp index hrep
      have hheight := height_lt_mapping hp
      exact ih p hp (by omega) hrep
    refine ⟨_, hnode, fun b parent parentKey hslot => ?_⟩
    obtain ⟨b₁, hrun₁, hbuilt₁⟩ := hslot.jsonBuildObject
    have hloop := hbuilt₁.read_pairs hreads hpairs
    rw [yaml2JSON1, part, hrun₁, Exec.ok_bind]
    cases hparts : pairsParts pairs with
    | error fault =>
      rw [hparts] at hloop
      exact Exec.bind_eq_error hloop
    | ok props =>
      rw [hparts] at hloop
      obtain ⟨b', hrun', hbuilt'⟩ := hloop
      exact ⟨b', Exec.bind_eq_ok.mpr ⟨b', hrun', rfl⟩, hbuilt'⟩

end JsonBuilder

/-- The address that is returned for a document: none if nothing was built or a template. -/
def rootResult (heap : List JsonNode) (t : YamlTree) (value : Option Json) : Option ℕ :=
  if t.template then none else value.map fun _ => heap.length

/-- A document is read as a tree of new nodes, with the parts left out that cannot be converted. -/
theorem yaml2JSON_eq {fuel : ℕ} {doc : YamlDocument} {t : YamlTree} (hfuel : t.height < fuel)
    (hrep : t.Rep doc 1) (heap : List JsonNode) :
    match t.part with
    | .error fault => yaml2JSON fuel heap doc = .error fault
    | .ok value => ∃ heap', yaml2JSON fuel heap doc = .ok (rootResult heap t value, heap') ∧
        (∀ i < heap.length, heap'[i]? = heap[i]?) ∧
        ∀ j, value = some j → Json.Rep heap' {i | heap.length ≤ i} heap.length j := by
  obtain ⟨node, hnode, hread⟩ := JsonBuilder.reads hfuel hrep
  have hpart := hread (JsonBuilder.Slot.root (b := ⟨heap, none⟩))
  have hroot : yaml_document_get_root_node doc = some node := hnode
  unfold yaml2JSON
  rw [hroot]
  dsimp only
  cases hvalue : t.part with
  | error fault =>
    rw [hvalue] at hpart
    exact Exec.bind_eq_error hpart
  | ok value =>
    rw [hvalue] at hpart
    cases value with
    | none =>
      refine ⟨heap, Exec.bind_eq_ok.mpr ⟨_, hpart, ?_⟩, fun i _ => rfl, by simp⟩
      unfold rootResult
      rw [Option.map_none, ite_self]
      rfl
    | some j =>
      obtain ⟨b', hrun, hbuilt⟩ := hpart
      refine ⟨b'.heap, Exec.bind_eq_ok.mpr ⟨_, hrun, rfl⟩, fun i hi => hbuilt.kept.heap i hi (by simp), ?_⟩
      rintro j' hj
      rw [← Option.some_inj.mp hj]
      refine Json.rep_iff.mpr ⟨?_, hbuilt.rep.mono fun i hi => ?_⟩
      · show heap.length ≤ heap.length
        exact le_rfl
      · show heap.length ≤ i
        have hlt : heap.length < i := hi
        omega

end ZoweCommon
