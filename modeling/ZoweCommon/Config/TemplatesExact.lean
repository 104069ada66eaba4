import ZoweCommon.Config.Templates
import ZoweCommon.Json.MergeCorrect

/-! When every template of a configuration is replaced by what it stands for. -/
namespace ZoweCommon

open CString Json

mutual

/-- The JSON form of a value, if it has one. The elements of an array are counted by an `int`. -/
def jsonForm : JSValue → Option Json
  | .undefined => none
  | .symbol => none
  | .int n => some (.scalar (.int64 (n.signExtend 64)))
  | .float64 bits => some (.scalar (.double bits))
  | .bool b => some (.scalar (.boolean b))
  | .string none => none
  | .string (some s) => if NoNul s then some (.scalar (.string (ofBytes s))) else none
  | .null => some (.scalar .null)
  | .array elements =>
    if elements.length < 2 ^ 31 then (elementsForm elements).map .array else none
  | .object properties => (propertiesForm properties).map .object
  | .unlistable => none
  | .other => none

def elementsForm : List JSValue → Option (List Json)
  | [] => some []
  | element :: elements => do
    let item ← jsonForm element
    let items ← elementsForm elements
    return item :: items

def propertiesForm : List (List Byte × JSValue) → Option (List (CString × Json))
  | [] => some []
  | (name, value) :: properties =>
    if NoNul name then do
      let prop ← jsonForm value
      let props ← propertiesForm properties
      return (ofBytes name, prop) :: props
    else none

end

/-- A template is an object that says so. -/
def Unevaluated : Json → Prop
  | .object props => lookup props ZOWE_INTERNAL_TYPE = some (.scalar (.string ZOWE_UNEVALUATED))
  | _ => False

/-- The value that a template stands for when the top-level properties are these. -/
inductive StandsFor (js : JavaScript) (globals : List (CString × Json)) : Json → Json → Prop
  | value {props : List (CString × Json)} {source : CString} {output : JSValue} {t : Json}
      (hsource : lookup props SOURCE = some (.scalar (.string source)))
      (heval : js source globals = some output) (hform : jsonForm output = some t) :
      StandsFor js globals (.object props) t

mutual

/-- The tree with the templates below it replaced, in the order of the document. `top` has the
top-level properties, by what the tree is at the time. -/
inductive Evaluated (js : JavaScript) : (Json → List (CString × Json)) → Json → Json → Prop
  | scalar {top : Json → List (CString × Json)} (s : JsonScalar) :
      Evaluated js top (.scalar s) (.scalar s)
  | object {top : Json → List (CString × Json)} {props : List (CString × Json)} {values : List Json}
      (h : EvaluatedParts js (fun vs => top (.object ((props.map Prod.fst).zip vs))) []
        (props.map Prod.snd) values) :
      Evaluated js top (.object props) (.object ((props.map Prod.fst).zip values))
  | array {top : Json → List (CString × Json)} {items values : List Json}
      (h : EvaluatedParts js (fun vs => top (.array vs)) [] items values) :
      Evaluated js top (.array items) (.array values)

/-- The parts that are done, those that are not, and all of them when they are. -/
inductive EvaluatedParts (js : JavaScript) :
    (List Json → List (CString × Json)) → List Json → List Json → List Json → Prop
  | nil {top : List Json → List (CString × Json)} {done : List Json} :
      EvaluatedParts js top done [] done
  | template {top : List Json → List (CString × Json)} {done rest values : List Json} {v v' : Json}
      (hv : Unevaluated v) (hvalue : StandsFor js (top (done ++ v :: rest)) v v')
      (h : EvaluatedParts js top (done ++ [v']) rest values) :
      EvaluatedParts js top done (v :: rest) values
  | part {top : List Json → List (CString × Json)} {done rest values : List Json} {v v' : Json}
      (hv : ¬Unevaluated v) (hpart : Evaluated js (fun u => top (done ++ u :: rest)) v v')
      (h : EvaluatedParts js top (done ++ [v']) rest values) :
      EvaluatedParts js top done (v :: rest) values

end

mutual

/-- A tree in memory, with a node of its own for each of its values. -/
inductive Layout (heap : List JsonNode) : ℕ → Json → List ℕ → Prop
  | scalar {p : ℕ} {s : JsonScalar} (h : heap[p]? = some (.scalar s)) :
      Layout heap p (.scalar s) [p]
  | object {p : ℕ} {ps : List (CString × ℕ)} {props : List (CString × Json)} {l : List ℕ}
      (h : heap[p]? = some (.object ps)) (hkeys : ps.map Prod.fst = props.map Prod.fst)
      (hvalues : Layouts heap (ps.map Prod.snd) (props.map Prod.snd) l) :
      Layout heap p (.object props) (p :: l)
  | array {p : ℕ} {es : List ℕ} {items : List Json} {l : List ℕ} (h : heap[p]? = some (.array es))
      (hvalues : Layouts heap es items l) : Layout heap p (.array items) (p :: l)

inductive Layouts (heap : List JsonNode) : List ℕ → List Json → List ℕ → Prop
  | nil : Layouts heap [] [] []
  | cons {p : ℕ} {t : Json} {l : List ℕ} {ps : List ℕ} {ts : List Json} {ls : List ℕ}
      (h : Layout heap p t l) (hs : Layouts heap ps ts ls) :
      Layouts heap (p :: ps) (t :: ts) (l ++ ls)

end

/-- A tree in memory, no two of whose values are at one address. -/
def Separate (heap : List JsonNode) (p : ℕ) (t : Json) : Prop :=
  ∃ l, Layout heap p t l ∧ l.Nodup

/-- A whole configuration, with the templates below it replaced. -/
def EvaluatedTop (js : JavaScript) (props props' : List (CString × Json)) : Prop :=
  ∃ values, EvaluatedParts js (fun vs => (props.map Prod.fst).zip vs) [] (props.map Prod.snd) values ∧
    props' = (props.map Prod.fst).zip values

/-- With enough fuel all templates are replaced, or that this cannot be done is reported. -/
def TemplateLaw (js : JavaScript) (heap : List JsonNode) (p : ℕ) (props : List (CString × Json)) :
    Prop :=
  (∀ props', EvaluatedTop js props props' → ∃ enough, ∀ fuel ≥ enough, ∃ heap',
    evaluateJsonTemplates js fuel heap p = .ok (some p, heap') ∧
      Rep heap' Set.univ p (.object props')) ∧
  ((∀ props', ¬EvaluatedTop js props props') → ∃ enough, ∀ fuel ≥ enough, ∃ heap',
    evaluateJsonTemplates js fuel heap p = .ok (none, heap'))

section Converting

variable {b b₀ : JsonBuilder} {parent : Option ℕ} {parentKey : Option CString}

open JsonBuilder

/-- Induction over a value, with one hypothesis for all its parts. -/
@[elab_as_elim] theorem JSValue.parts_induction {motive : JSValue → Prop}
    (leaf : ∀ v, (∀ es, v ≠ .array es) → (∀ ps, v ≠ .object ps) → motive v)
    (array : ∀ es, (∀ e ∈ es, motive e) → motive (.array es))
    (object : ∀ ps, (∀ p ∈ ps, motive p.2) → motive (.object ps)) : ∀ v, motive v
  | .array es => array es fun e _ => parts_induction leaf array object e
  | .object ps => object ps fun p _ => parts_induction leaf array object p.2
  | .undefined => leaf _ nofun nofun
  | .symbol => leaf _ nofun nofun
  | .int _ => leaf _ nofun nofun
  | .float64 _ => leaf _ nofun nofun
  | .bool _ => leaf _ nofun nofun
  | .string _ => leaf _ nofun nofun
  | .null => leaf _ nofun nofun
  | .unlistable => leaf _ nofun nofun
  | .other => leaf _ nofun nofun
termination_by v => sizeOf v
decreasing_by
  · next he =>
    have hlt := List.sizeOf_lt_of_mem he
    simp
    omega
  · next hp =>
    have hlt := List.sizeOf_lt_of_mem hp
    cases p
    simp at hlt ⊢
    omega

/-- A value is converted to a tree, wherever it goes. -/
def Converts (v : JSValue) (t : Json) : Prop :=
  ∀ ⦃b : JsonBuilder⦄ ⦃parent : Option ℕ⦄ ⦃parentKey : Option CString⦄, Slot b parent parentKey →
    ∃ b', jsToJson1 b parent parentKey v = .ok (some b.heap.length, b') ∧
      Built b b' parent parentKey t

theorem elementsToJson_built {elements : List JSValue} {items : List Json} {count : ℕ}
    (ih : ∀ v ∈ elements, ∀ t, jsonForm v = some t → Converts v t)
    (hform : elementsForm elements = some items) (hcount : elements.length ≤ count)
    {pre : List Json} (hbuilt : Built b₀ b parent parentKey (.array pre)) :
    ∃ b', elementsToJson b (some b₀.heap.length) count elements = .ok b' ∧
      Built b₀ b' parent parentKey (.array (pre ++ items)) := by
  induction elements generalizing b pre items count with
  | nil =>
    cases hform
    rw [List.append_nil]
    refine ⟨b, ?_, hbuilt⟩
    cases count with
    | zero => rfl
    | succ count => rfl
  | cons element elements ihs =>
    rw [elementsForm] at hform
    obtain ⟨item, hitem, hform⟩ := Option.bind_eq_some_iff.mp hform
    obtain ⟨others, hothers, hform⟩ := Option.bind_eq_some_iff.mp hform
    cases hform
    obtain ⟨b₁, hrun₁, hbuilt₁⟩ := ih element List.mem_cons_self item hitem hbuilt.slot_element
    obtain ⟨count, rfl⟩ := Nat.exists_eq_add_of_le' hcount
    have hrest := fun v hv => ih v (List.mem_cons_of_mem _ hv)
    obtain ⟨b', hrun', hbuilt'⟩ := ihs hrest hothers (Nat.le_add_left _ count)
      (hbuilt.push_element hbuilt₁)
    rw [List.append_assoc, List.singleton_append] at hbuilt'
    refine ⟨b', ?_, hbuilt'⟩
    rw [List.length_cons, ← Nat.add_assoc, elementsToJson, hrun₁, Exec.ok_bind]
    exact hrun'

theorem propertiesToJson_built {properties : List (List Byte × JSValue)}
    {props : List (CString × Json)}
    (ih : ∀ p ∈ properties, ∀ t, jsonForm p.2 = some t → Converts p.2 t)
    (hform : propertiesForm properties = some props) {pre : List (CString × Json)}
    (hbuilt : Built b₀ b parent parentKey (.object pre)) :
    ∃ b', propertiesToJson b (some b₀.heap.length) properties = .ok b' ∧
      Built b₀ b' parent parentKey (.object (pre ++ props)) := by
  induction properties generalizing b pre props with
  | nil =>
    cases hform
    rw [List.append_nil]
    exact ⟨b, rfl, hbuilt⟩
  | cons property properties ihs =>
    obtain ⟨name, value⟩ := property
    rw [propertiesForm] at hform
    split_ifs at hform
    obtain ⟨prop, hprop, hform⟩ := Option.bind_eq_some_iff.mp hform
    obtain ⟨others, hothers, hform⟩ := Option.bind_eq_some_iff.mp hform
    cases hform
    obtain ⟨b₁, hrun₁, hbuilt₁⟩ := ih (name, value) List.mem_cons_self prop hprop
      (hbuilt.slot_property (ofBytes name))
    have hrest := fun p hp => ih p (List.mem_cons_of_mem _ hp)
    obtain ⟨b', hrun', hbuilt'⟩ := ihs hrest hothers (hbuilt.push_property hbuilt₁)
    rw [List.append_assoc, List.singleton_append] at hbuilt'
    refine ⟨b', ?_, hbuilt'⟩
    rw [propertiesToJson, hrun₁, Exec.ok_bind]
    exact hrun'

theorem converts {v : JSValue} : ∀ t, jsonForm v = some t → Converts v t := by
  induction v using JSValue.parts_induction with
  | leaf v harray hobject =>
    intro t hform b parent parentKey hslot
    cases v with
    | undefined | symbol | unlistable | other => cases hform
    | array es => exact absurd rfl (harray es)
    | object ps => exact absurd rfl (hobject ps)
    | string s =>
      cases s with
      | none => cases hform
      | some s =>
        rw [jsonForm] at hform
        split_ifs at hform
        cases hform
        obtain ⟨b', hrun, hbuilt⟩ := hslot.build_scalar (.string (ofBytes s))
        refine ⟨b', ?_, hbuilt⟩
        exact Exec.bind_eq_ok.mpr ⟨_, hrun, rfl⟩
    | int n =>
      cases hform
      obtain ⟨b', hrun, hbuilt⟩ := hslot.build_scalar (.int64 (n.signExtend 64))
      exact ⟨b', Exec.bind_eq_ok.mpr ⟨_, hrun, rfl⟩, hbuilt⟩
    | float64 bits =>
      cases hform
      obtain ⟨b', hrun, hbuilt⟩ := hslot.build_scalar (.double bits)
      exact ⟨b', Exec.bind_eq_ok.mpr ⟨_, hrun, rfl⟩, hbuilt⟩
    | bool truthValue =>
      cases hform
      obtain ⟨b', hrun, hbuilt⟩ := hslot.build_scalar (.boolean truthValue)
      exact ⟨b', Exec.bind_eq_ok.mpr ⟨_, hrun, rfl⟩, hbuilt⟩
    | null =>
      cases hform
      obtain ⟨b', hrun, hbuilt⟩ := hslot.build_scalar .null
      exact ⟨b', Exec.bind_eq_ok.mpr ⟨_, hrun, rfl⟩, hbuilt⟩
  | array es ih =>
    intro t hform b parent parentKey hslot
    rw [jsonForm] at hform
    split_ifs at hform with hshort
    obtain ⟨items, hitems, rfl⟩ := Option.map_eq_some_iff.mp hform
    have hlength : ((BitVec.ofNat 32 es.length).toInt).toNat = es.length := by
      have hnat : (BitVec.ofNat 32 es.length).toNat = es.length := by
        rw [BitVec.toNat_ofNat]
        exact Nat.mod_eq_of_lt (by omega)
      rw [BitVec.toInt_eq_toNat_of_lt (by omega), hnat, Int.toNat_natCast]
    obtain ⟨b₁, hrun₁, hbuilt₁⟩ := hslot.jsonBuildArray
    obtain ⟨b', hrun', hbuilt'⟩ := elementsToJson_built ih hitems le_rfl hbuilt₁
    refine ⟨b', ?_, hbuilt'⟩
    rw [jsToJson1, hrun₁, Exec.ok_bind]
    dsimp only
    rw [hlength, hrun']
    rfl
  | object ps ih =>
    intro t hform b parent parentKey hslot
    rw [jsonForm] at hform
    obtain ⟨props, hprops, rfl⟩ := Option.map_eq_some_iff.mp hform
    obtain ⟨b₁, hrun₁, hbuilt₁⟩ := hslot.jsonBuildObject
    obtain ⟨b', hrun', hbuilt'⟩ := propertiesToJson_built ih hprops hbuilt₁
    refine ⟨b', ?_, hbuilt'⟩
    rw [jsToJson1, hrun₁, Exec.ok_bind]
    dsimp only
    rw [hrun']
    rfl

end Converting

section Reading

variable {heap : List JsonNode} {S : Set ℕ} {p : ℕ}

theorem node_eq {node : JsonNode} (h : heap[p]? = some node) :
    (⟨heap, none⟩ : JsonBuilder).node p = .ok node := by
  unfold JsonBuilder.node
  rw [h]
  rfl

/-- Reading the parts of a list one after the other. -/
theorem mapM_of_forall₂ {α β : Type} {f : α → Exec β} {as : List α} {bs : List β}
    (h : List.Forall₂ (fun a b => f a = .ok b) as bs) : as.mapM f = .ok bs := by
  induction h with
  | nil => rfl
  | cons hfirst _ ih =>
    rw [List.mapM_cons, hfirst, Exec.ok_bind, ih]
    rfl

theorem jsonToJS1_rep {t : Json} (hrep : Rep heap S p t) {fuel : ℕ} (hfuel : t.height < fuel) :
    jsonToJS1 heap fuel p = .ok t := by
  induction t using parts_induction generalizing p fuel with
  | scalar s =>
    obtain ⟨fuel, rfl⟩ := Nat.exists_eq_add_of_lt hfuel
    rw [jsonToJS1, node_eq hrep.2]
    rfl
  | object props ih =>
    obtain ⟨fuel, rfl⟩ : ∃ n, fuel = n + 1 := Nat.exists_eq_succ_of_ne_zero (by omega)
    obtain ⟨-, ps, hnode, hps⟩ := hrep
    rw [repProperties_iff] at hps
    have hread : List.Forall₂ (fun (q : CString × ℕ) (prop : CString × Json) =>
        (do let value ← jsonToJS1 heap fuel q.2; return (q.1, value) : Exec (CString × Json)) =
          .ok prop) ps props := by
      refine List.forall₂_iff_get.mpr ⟨hps.length_eq, fun i hi hi' => ?_⟩
      obtain ⟨hkey, hvalue⟩ := hps.get hi hi'
      have hheight := height_lt_object (List.get_mem props ⟨i, hi'⟩)
      rw [ih _ (List.get_mem _ _) hvalue (by omega), Exec.ok_bind, hkey]
      rfl
    rw [jsonToJS1, node_eq hnode, Exec.ok_bind]
    dsimp only
    rw [mapM_of_forall₂ hread]
    rfl
  | array items ih =>
    obtain ⟨fuel, rfl⟩ : ∃ n, fuel = n + 1 := Nat.exists_eq_succ_of_ne_zero (by omega)
    obtain ⟨-, es, hnode, hes⟩ := hrep
    rw [repElements_iff] at hes
    have hread : List.Forall₂ (fun e item => jsonToJS1 heap fuel e = .ok item) es items := by
      refine List.forall₂_iff_get.mpr ⟨hes.length_eq, fun i hi hi' => ?_⟩
      have hheight := height_lt_array (List.get_mem items ⟨i, hi'⟩)
      exact ih _ (List.get_mem _ _) (hes.get hi hi') (by omega)
    rw [jsonToJS1, node_eq hnode, Exec.ok_bind]
    dsimp only
    rw [mapM_of_forall₂ hread]
    rfl

theorem globalProperties_rep {props : List (CString × Json)}
    (hrep : Rep heap S p (.object props)) {fuel : ℕ} (hfuel : (object props).height < fuel) :
    globalProperties heap fuel p = .ok props := by
  obtain ⟨-, ps, hnode, hps⟩ := hrep
  rw [repProperties_iff] at hps
  have hread : List.Forall₂ (fun (q : CString × ℕ) (prop : CString × Json) =>
      (do let value ← jsonToJS1 heap fuel q.2; return (q.1, value) : Exec (CString × Json)) =
        .ok prop) ps props := by
    refine List.forall₂_iff_get.mpr ⟨hps.length_eq, fun i hi hi' => ?_⟩
    obtain ⟨hkey, hvalue⟩ := hps.get hi hi'
    have hheight := height_lt_object (List.get_mem props ⟨i, hi'⟩)
    rw [jsonToJS1_rep hvalue (by omega), Exec.ok_bind, hkey]
    rfl
  unfold globalProperties
  rw [node_eq hnode, Exec.ok_bind]
  exact mapM_of_forall₂ hread

theorem isZoweUnevaluated_rep {t : Json} (hrep : Rep heap S p t) :
    ∃ answer, isZoweUnevaluated heap p = .ok answer ∧ (answer = true ↔ Unevaluated t) := by
  unfold isZoweUnevaluated
  cases t with
  | scalar s =>
    rw [node_eq hrep.2]
    exact ⟨false, rfl, iff_of_false Bool.false_ne_true not_false⟩
  | array items =>
    obtain ⟨-, es, hnode, -⟩ := hrep
    rw [node_eq hnode]
    exact ⟨false, rfl, iff_of_false Bool.false_ne_true not_false⟩
  | object props =>
    obtain ⟨-, ps, hnode, hps⟩ := hrep
    rw [node_eq hnode, Exec.ok_bind]
    dsimp only [Unevaluated]
    obtain ⟨hnone, hlookup⟩ | ⟨q, t, hsome, hlookup, -, hq⟩ :=
      JsonBuilder.getPropertyValue_rep hps ZOWE_INTERNAL_TYPE
    · rw [hnone, hlookup]
      exact ⟨false, rfl, iff_of_false Bool.false_ne_true nofun⟩
    · rw [hsome, hlookup]
      dsimp only
      cases t with
      | scalar s =>
        rw [node_eq hq.2, Exec.ok_bind, Option.some_inj, scalar.injEq]
        cases s with
        | string s =>
          refine ⟨decide (s = ZOWE_UNEVALUATED), rfl, ?_⟩
          rw [decide_eq_true_eq, JsonScalar.string.injEq]
        | _ => exact ⟨false, rfl, iff_of_false Bool.false_ne_true nofun⟩
      | object props =>
        obtain ⟨-, ps, hnode, -⟩ := hq
        rw [node_eq hnode]
        exact ⟨false, rfl, iff_of_false Bool.false_ne_true nofun⟩
      | array items =>
        obtain ⟨-, es, hnode, -⟩ := hq
        rw [node_eq hnode]
        exact ⟨false, rfl, iff_of_false Bool.false_ne_true nofun⟩

end Reading

section Layouts

variable {heap heap' : List JsonNode}

mutual

theorem Layout.lt_length : ∀ {p : ℕ} {t : Json} {l : List ℕ}, Layout heap p t l →
    ∀ i ∈ l, i < heap.length
  | _, _, _, .scalar h, i, hi => by
    rw [List.mem_singleton.mp hi]
    exact (List.getElem?_eq_some_iff.mp h).1
  | _, _, _, .object h _ hvalues, i, hi => by
    obtain rfl | hmem := List.mem_cons.mp hi
    · exact (List.getElem?_eq_some_iff.mp h).1
    · exact hvalues.lt_length i hmem
  | _, _, _, .array h hvalues, i, hi => by
    obtain rfl | hmem := List.mem_cons.mp hi
    · exact (List.getElem?_eq_some_iff.mp h).1
    · exact hvalues.lt_length i hmem

theorem Layouts.lt_length : ∀ {ps : List ℕ} {ts : List Json} {l : List ℕ}, Layouts heap ps ts l →
    ∀ i ∈ l, i < heap.length
  | _, _, _, .nil, _, hi => by cases hi
  | _, _, _, .cons h hs, i, hi => by
    obtain hmem | hmem := List.mem_append.mp hi
    · exact h.lt_length i hmem
    · exact hs.lt_length i hmem

end

mutual

/-- A tree is where it was if its own nodes are. -/
theorem Layout.move : ∀ {p : ℕ} {t : Json} {l : List ℕ}, Layout heap p t l →
    (∀ i ∈ l, heap'[i]? = heap[i]?) → Layout heap' p t l
  | _, _, _, .scalar h, hsame => .scalar ((hsame _ List.mem_cons_self).trans h)
  | _, _, _, .object h hkeys hvalues, hsame =>
    .object ((hsame _ List.mem_cons_self).trans h) hkeys
      (hvalues.move fun i hi => hsame i (List.mem_cons_of_mem _ hi))
  | _, _, _, .array h hvalues, hsame =>
    .array ((hsame _ List.mem_cons_self).trans h)
      (hvalues.move fun i hi => hsame i (List.mem_cons_of_mem _ hi))

theorem Layouts.move : ∀ {ps : List ℕ} {ts : List Json} {l : List ℕ}, Layouts heap ps ts l →
    (∀ i ∈ l, heap'[i]? = heap[i]?) → Layouts heap' ps ts l
  | _, _, _, .nil, _ => .nil
  | _, _, _, .cons h hs, hsame =>
    .cons (h.move fun i hi => hsame i (List.mem_append_left _ hi))
      (hs.move fun i hi => hsame i (List.mem_append_right _ hi))

end

theorem repProperties_of_values {S : Set ℕ} {ps : List (CString × ℕ)}
    {props : List (CString × Json)} (hkeys : ps.map Prod.fst = props.map Prod.fst)
    (hvalues : List.Forall₂ (Rep heap S) (ps.map Prod.snd) (props.map Prod.snd)) :
    RepProperties heap S ps props := by
  rw [repProperties_iff]
  induction ps generalizing props with
  | nil =>
    rw [List.map_nil] at hkeys
    rw [List.map_eq_nil_iff.mp hkeys.symm]
    exact .nil
  | cons q ps ih =>
    cases props with
    | nil => cases hkeys
    | cons prop props =>
      obtain ⟨hkey, hkeys⟩ := List.cons.inj hkeys
      obtain ⟨hvalue, hvalues⟩ := List.forall₂_cons.mp hvalues
      exact .cons ⟨hkey, hvalue⟩ (ih hkeys hvalues)

mutual

/-- The tree of a layout, among nodes that those of the layout are some of. -/
theorem Layout.rep {S : Set ℕ} : ∀ {p : ℕ} {t : Json} {l : List ℕ}, Layout heap p t l →
    (∀ i ∈ l, i ∈ S) → Rep heap S p t
  | _, _, _, .scalar h, hS => ⟨hS _ List.mem_cons_self, h⟩
  | _, _, _, .object h hkeys hvalues, hS =>
    ⟨hS _ List.mem_cons_self, _, h,
      repProperties_of_values hkeys (hvalues.rep fun i hi => hS i (List.mem_cons_of_mem _ hi))⟩
  | _, _, _, .array h hvalues, hS =>
    ⟨hS _ List.mem_cons_self, _, h,
      repElements_iff.mpr (hvalues.rep fun i hi => hS i (List.mem_cons_of_mem _ hi))⟩

theorem Layouts.rep {S : Set ℕ} : ∀ {ps : List ℕ} {ts : List Json} {l : List ℕ},
    Layouts heap ps ts l → (∀ i ∈ l, i ∈ S) → List.Forall₂ (Rep heap S) ps ts
  | _, _, _, .nil, _ => .nil
  | _, _, _, .cons h hs, hS =>
    .cons (h.rep fun i hi => hS i (List.mem_append_left _ hi))
      (hs.rep fun i hi => hS i (List.mem_append_right _ hi))

end

theorem Layouts.length_eq {ps : List ℕ} {ts : List Json} {l : List ℕ} (h : Layouts heap ps ts l) :
    ps.length = ts.length := (h.rep fun i hi => (hi : i ∈ {i | i ∈ l})).length_eq

end Layouts

section Parents

/-- A value with parts, as one of its parts is set: the node for the addresses of the parts, the
tree for their trees, and the places of the parts. -/
structure Parent (node : List ℕ → JsonNode) (tree : List Json → Json) (place : ℕ → Place)
    (n : ℕ) : Prop where
  rep : ∀ {heap : List JsonNode} {S : Set ℕ} {p : ℕ} {qs : List ℕ} {vs : List Json}, p ∈ S →
    heap[p]? = some (node qs) → qs.length = n → List.Forall₂ (Rep heap S) qs vs →
    Rep heap S p (tree vs)
  set : ∀ {heap : List JsonNode} {p i r : ℕ} {qs : List ℕ}, heap[p]? = some (node qs) →
    qs.length = n → i < n →
    setInParent heap p (place i) r = .ok (heap.set p (node (qs.set i r)))

theorem parent_array (n : ℕ) : Parent .array .array .element n where
  rep hp hnode _ hvalues := ⟨hp, _, hnode, repElements_iff.mpr hvalues⟩
  set hnode hlength hi := by
    unfold setInParent setJsonArrayElement
    rw [node_eq hnode, Exec.ok_bind]
    dsimp only
    rw [if_pos (hlength ▸ hi)]
    rfl

theorem setJsonProperty_zip {keys : List CString} (hkeys : keys.Nodup) {qs : List ℕ}
    (hlength : qs.length = keys.length) {i r : ℕ} {key : CString} (hkey : keys[i]? = some key) :
    setJsonProperty key r (keys.zip qs) = keys.zip (qs.set i r) := by
  induction keys generalizing qs i with
  | nil => cases hkey
  | cons k keys ih =>
    cases qs with
    | nil => cases hlength
    | cons q qs =>
      obtain ⟨hfirst, hrest⟩ := List.nodup_cons.mp hkeys
      rw [List.zip_cons_cons, setJsonProperty]
      cases i with
      | zero =>
        rw [if_pos (Option.some.inj hkey)]
        rfl
      | succ i =>
        have hmem : key ∈ keys := List.mem_of_getElem? hkey
        have hne : k ≠ key := fun heq => hfirst (heq ▸ hmem)
        rw [if_neg hne, ih hrest (Nat.succ.inj hlength) hkey]
        rfl

def keyPlace (keys : List CString) (i : ℕ) : Place :=
  match keys[i]? with
  | some key => .property key
  | none => .element i

theorem parent_object {keys : List CString} (hkeys : keys.Nodup) :
    Parent (fun qs => .object (keys.zip qs)) (fun vs => .object (keys.zip vs)) (keyPlace keys)
      keys.length where
  rep {heap S p qs vs} hp hnode hlength hvalues := by
    refine ⟨hp, _, hnode, repProperties_of_values ?_ ?_⟩
    · have hvs := hvalues.length_eq
      rw [List.map_fst_zip (by omega), List.map_fst_zip (by omega)]
    · have hvs := hvalues.length_eq
      rw [List.map_snd_zip (by omega), List.map_snd_zip (by omega)]
      exact hvalues
  set {heap p i r qs} hnode hlength hi := by
    have hkey : keys[i]? = some keys[i] := List.getElem?_eq_getElem hi
    unfold setInParent keyPlace
    rw [node_eq hnode, Exec.ok_bind, hkey]
    dsimp only
    rw [setJsonProperty_zip hkeys hlength hkey]
    rfl

end Parents

section Visiting

variable {js : JavaScript} {heap₀ heap heap' heap'' : List JsonNode} {l l' : List ℕ} {p : ℕ}

/-- Only these nodes have changed, and there may be new ones. -/
structure Changed (heap heap' : List JsonNode) (l : List ℕ) : Prop where
  length_le : heap.length ≤ heap'.length
  kept : ∀ i < heap.length, i ∉ l → heap'[i]? = heap[i]?

theorem Changed.refl (heap : List JsonNode) (l : List ℕ) : Changed heap heap l :=
  ⟨le_rfl, fun _ _ _ => rfl⟩

theorem Changed.trans (h : Changed heap heap' l) (h' : Changed heap' heap'' l')
    (hsub : ∀ i ∈ l', i ∈ l) : Changed heap heap'' l where
  length_le := h.length_le.trans h'.length_le
  kept i hi hl := by
    rw [h'.kept i (hi.trans_le h.length_le) fun hmem => hl (hsub i hmem), h.kept i hi hl]

/-- The nodes of a part and the new ones. -/
def Region (heap : List JsonNode) (l : List ℕ) : Set ℕ := {i | i ∈ l ∨ heap.length ≤ i}

/-- Some parts of a value have been visited, others have not. -/
structure Halfway (heap₀ : List JsonNode) (l : List ℕ) (p : ℕ) (node : List ℕ → JsonNode) (n : ℕ)
    (heap : List JsonNode) (qs : List ℕ) (done : List Json) (rs : List ℕ) (rest : List Json)
    (left : List ℕ) : Prop where
  changed : Changed heap₀ heap l
  parent : p ∈ l
  node : heap[p]? = some (node (qs ++ rs))
  length : (qs ++ rs).length = n
  done : List.Forall₂ (Rep heap {i | i ∈ Region heap₀ l ∧ i ≠ p ∧ i ∉ left}) qs done
  rest : Layouts heap rs rest left
  nodup : left.Nodup
  apart : p ∉ left
  sub : ∀ i ∈ left, i ∈ l

/-- The whole configuration is there, whatever becomes of the part. -/
def Ambient (heap : List JsonNode) (l : List ℕ) (topJson p : ℕ)
    (top : Json → List (CString × Json)) : Prop :=
  ∀ heap' u, Changed heap heap' l → Rep heap' (Region heap l) p u →
    Rep heap' Set.univ topJson (.object (top u))

variable {node : List ℕ → JsonNode} {tree : List Json → Json} {place : ℕ → Place} {n q r : ℕ}
  {qs rs left lq : List ℕ} {done rest : List Json} {v v' : Json}

theorem Halfway.rep (hparent : Parent node tree place n)
    (h : Halfway heap₀ l p node n heap qs done rs rest left) :
    Rep heap (Region heap₀ l) p (tree (done ++ rest)) := by
  apply hparent.rep (.inl h.parent) h.node h.length
  apply List.rel_append
  · exact h.done.imp fun _ _ hrep => hrep.transport (fun i hi => hi.1) fun _ _ _ hnode => hnode
  · exact h.rest.rep fun i hi => .inl (h.sub i hi)

/-- The next part is done: it is there as another tree, perhaps at another address. -/
theorem Halfway.advance (h : Halfway heap₀ l p node n heap qs done (q :: rs) (v :: rest) (lq ++ left))
    (hleft : Layouts heap rs rest left) (hchanged : Changed heap heap' (p :: lq))
    (hnode : heap'[p]? = some (node (qs ++ r :: rs))) (hrep : Rep heap' (Region heap lq) r v') :
    Halfway heap₀ l p node n heap' (qs ++ [r]) (done ++ [v']) rs rest left := by
  obtain ⟨hlq, hnodup, hdisjoint⟩ := List.nodup_append.mp h.nodup
  have hp := (List.getElem?_eq_some_iff.mp h.node).1
  have hsub : ∀ i ∈ p :: lq, i ∈ l := by
    intro i hi
    obtain rfl | hmem := List.mem_cons.mp hi
    · exact h.parent
    · exact h.sub i (List.mem_append_left _ hmem)
  have hparts : ∀ i ∈ left, i ∉ p :: lq := by
    intro i hi hmem
    obtain rfl | hmem := List.mem_cons.mp hmem
    · exact h.apart (List.mem_append_right _ hi)
    · exact hdisjoint i hmem i hi rfl
  refine ⟨h.changed.trans hchanged hsub, h.parent, ?_, ?_, ?_, ?_, hnodup, ?_, ?_⟩
  · rw [hnode, List.append_assoc, List.singleton_append]
  · rw [List.append_assoc, List.singleton_append, ← h.length, List.length_append,
      List.length_append]
    rfl
  · apply List.rel_append
    · refine h.done.imp fun _ _ hold => hold.move fun i hi item hitem => ?_
      obtain ⟨hregion, hne, hnot⟩ := hi
      refine ⟨⟨hregion, hne, fun hmem => hnot (List.mem_append_right _ hmem)⟩, ?_⟩
      have hlt := (List.getElem?_eq_some_iff.mp hitem).1
      have hout : i ∉ p :: lq := by
        rw [List.mem_cons, not_or]
        exact ⟨hne, fun hmem => hnot (List.mem_append_left _ hmem)⟩
      rw [hchanged.kept i hlt hout, hitem]
    · refine .cons (hrep.transport ?_ fun _ _ _ hitem => hitem) .nil
      intro i hi
      obtain hmem | hle := hi
      · refine ⟨.inl (h.sub i (List.mem_append_left _ hmem)), ?_, fun hin => ?_⟩
        · intro heq
          exact h.apart (List.mem_append_left _ (heq ▸ hmem))
        · exact hdisjoint i hmem i hin rfl
      · refine ⟨.inr (h.changed.length_le.trans hle), by omega, fun hin => ?_⟩
        have hlt := hleft.lt_length i hin
        omega
  · apply hleft.move
    intro i hi
    exact hchanged.kept i (hleft.lt_length i hi) (hparts i hi)
  · exact fun hmem => h.apart (List.mem_append_right _ hmem)
  · exact fun i hi => h.sub i (List.mem_append_right _ hi)

theorem evaluationVisitor_template {topJson fuel : ℕ} {globals : List (CString × Json)}
    {place : Place} {before after : List ℕ}
    (htop : Rep heap Set.univ topJson (.object globals))
    (hfuel : (object globals).height < fuel) {S : Set ℕ} (hrep : Rep heap S q v)
    (hv : Unevaluated v) (hvalue : StandsFor js globals v v')
    (hnode : heap[p]? = some (node before))
    (hset : ∀ heap', heap'[p]? = some (node before) →
      setInParent heap' p place heap.length = .ok (heap'.set p (node after))) :
    ∃ heap', evaluationVisitor js fuel topJson heap q p place = .ok (false, heap') ∧
      Changed heap heap' [p] ∧ heap'[p]? = some (node after) ∧
      Rep heap' {i | heap.length ≤ i} heap.length v' := by
  obtain ⟨answer, hanswer, hiff⟩ := isZoweUnevaluated_rep hrep
  obtain ⟨hsource, heval, hform⟩ := hvalue
  obtain ⟨-, ps, hps, hprops⟩ := hrep
  have hp := (List.getElem?_eq_some_iff.mp hnode).1
  obtain ⟨-, hlookup⟩ | ⟨s, t, hsome, hlookup, -, hs⟩ := JsonBuilder.getPropertyValue_rep hprops SOURCE
  · rw [hlookup] at hsource
    cases hsource
  rw [hlookup] at hsource
  cases hsource
  obtain ⟨b', hrun, hbuilt⟩ := converts _ hform (@JsonBuilder.Slot.root ⟨heap, none⟩)
  have hkept : ∀ i < heap.length, b'.heap[i]? = heap[i]? := fun i hi =>
    hbuilt.kept.heap i hi nofun
  have hlength : heap.length ≤ b'.heap.length := hbuilt.kept.length_le
  have hsetNode := hset b'.heap (by rw [hkept p hp, hnode])
  refine ⟨b'.heap.set p (node after), ?_, ⟨?_, ?_⟩, ?_, ?_⟩
  · unfold evaluationVisitor
    rw [hanswer, Exec.ok_bind, hiff.mpr hv, if_pos rfl, globalProperties_rep htop hfuel,
      Exec.ok_bind, node_eq hps, Exec.ok_bind]
    dsimp only
    rw [hsome]
    dsimp only
    rw [node_eq hs.2, Exec.ok_bind]
    dsimp only
    rw [heval]
    dsimp only
    rw [hrun, Exec.ok_bind]
    dsimp only
    rw [hsetNode]
    rfl
  · rw [List.length_set]
    exact hlength
  · intro i hi hne
    rw [List.getElem?_set_ne fun heq => hne (List.mem_singleton.mpr heq.symm), hkept i hi]
  · exact List.getElem?_set_self (hp.trans_le hlength)
  · have hnew : Rep b'.heap {i | heap.length ≤ i} heap.length v' := by
      have hself : heap.length ∈ {i | heap.length ≤ i} := le_refl heap.length
      have hbelow : {i | heap.length < i} ⊆ {i | heap.length ≤ i} := by
        intro i hi
        have hlt : heap.length < i := hi
        exact hlt.le
      exact rep_iff.mpr ⟨hself, RepNode.mono hbelow hbuilt.rep⟩
    refine hnew.transport subset_rfl fun i hi item hitem => ?_
    have hle : heap.length ≤ i := hi
    rw [List.getElem?_set_ne (by omega), hitem]

theorem evaluationVisitor_other {topJson fuel : ℕ} {place : Place} {S : Set ℕ}
    (hrep : Rep heap S q v) (hv : ¬Unevaluated v) :
    evaluationVisitor js fuel topJson heap q p place = .ok (true, heap) := by
  obtain ⟨answer, hanswer, hiff⟩ := isZoweUnevaluated_rep hrep
  have hfalse : ¬answer = true := fun h => hv (hiff.mp h)
  unfold evaluationVisitor
  rw [hanswer, Exec.ok_bind, if_neg hfalse]
  rfl

/-- A part of a value in its place, as the loops go through them. -/
def visitPart (js : JavaScript) (topJson fuel parent : ℕ) (heap : List JsonNode)
    (part : ℕ × Place) : Exec (List JsonNode) := do
  let (shouldVisitChildren, heap) ← evaluationVisitor js fuel topJson heap part.1 parent part.2
  if shouldVisitChildren then visitJSON js topJson fuel heap part.1 else return heap

/-- The parts with their places, from a number on. -/
def inPlaces (place : ℕ → Place) (i : ℕ) (qs : List ℕ) : List (ℕ × Place) :=
  (qs.zipIdx i).map fun e => (e.1, place e.2)

theorem inPlaces_cons (i : ℕ) (qs : List ℕ) :
    inPlaces place i (q :: qs) = (q, place i) :: inPlaces place (i + 1) qs := by
  unfold inPlaces
  rw [List.zipIdx_cons, List.map_cons]

theorem visitJSON_array {topJson fuel : ℕ} {es : List ℕ} (hnode : heap[p]? = some (.array es)) :
    visitJSON js topJson (fuel + 1) heap p =
      (inPlaces .element 0 es).foldlM (visitPart js topJson fuel p) heap := by
  rw [visitJSON, node_eq hnode, Exec.ok_bind]
  dsimp only [inPlaces]
  rw [List.foldlM_map]
  rfl

theorem inPlaces_keys (ps : List (CString × ℕ)) :
    inPlaces (keyPlace (ps.map Prod.fst)) 0 (ps.map Prod.snd) =
      ps.map fun q => (q.2, .property q.1) := by
  apply List.ext_getElem
  · unfold inPlaces
    simp only [List.length_map, List.length_zipIdx]
  · intro i h h'
    rw [List.length_map] at h'
    have hkey : (ps.map Prod.fst)[i]? = some ps[i].1 := by
      rw [List.getElem?_map, List.getElem?_eq_getElem h']
      rfl
    simp only [inPlaces, List.getElem_map, List.getElem_zipIdx, Nat.zero_add, keyPlace, hkey]

theorem visitJSON_object {topJson fuel : ℕ} {ps : List (CString × ℕ)}
    (hnode : heap[p]? = some (.object ps)) : visitJSON js topJson (fuel + 1) heap p =
      (inPlaces (keyPlace (ps.map Prod.fst)) 0 (ps.map Prod.snd)).foldlM
        (visitPart js topJson fuel p) heap := by
  rw [visitJSON, node_eq hnode, Exec.ok_bind, inPlaces_keys, List.foldlM_map]
  rfl

theorem zip_fst_snd {α : Type} (ps : List (CString × α)) :
    (ps.map Prod.fst).zip (ps.map Prod.snd) = ps := by
  induction ps with
  | nil => rfl
  | cons q ps ih => rw [List.map_cons, List.map_cons, List.zip_cons_cons, ih]

/-- The whole configuration is there, whatever becomes of the parts of a value. -/
def AmbientParts (heap : List JsonNode) (l : List ℕ) (topJson p : ℕ) (tree : List Json → Json)
    (top : List Json → List (CString × Json)) : Prop :=
  ∀ heap' vs, Changed heap heap' l → Rep heap' (Region heap l) p (tree vs) →
    Rep heap' Set.univ topJson (.object (top vs))

variable {topJson fuel : ℕ} {top : List Json → List (CString × Json)}

theorem Halfway.visited
    (h : Halfway heap₀ l p node n heap qs done (q :: rs) (v :: rest) (lq ++ left))
    (hleft : Layouts heap rs rest left) (hchanged : Changed heap heap' lq)
    (hrep : Rep heap' (Region heap lq) q v') :
    Halfway heap₀ l p node n heap' (qs ++ [q]) (done ++ [v']) rs rest left := by
  have hp := (List.getElem?_eq_some_iff.mp h.node).1
  have hapart : p ∉ lq := fun hmem => h.apart (List.mem_append_left _ hmem)
  refine h.advance hleft ⟨hchanged.length_le, fun i hi hne => ?_⟩ ?_ hrep
  · exact hchanged.kept i hi fun hmem => hne (List.mem_cons_of_mem _ hmem)
  · rw [hchanged.kept p hp hapart, h.node]

theorem Halfway.ambient (hparent : Parent node tree place n)
    (h : Halfway heap₀ l p node n heap qs done (q :: rs) (v :: rest) (lq ++ left))
    (hleft : Layouts heap rs rest left) (hambient : AmbientParts heap₀ l topJson p tree top) :
    Ambient heap lq topJson q fun u => top (done ++ u :: rest) := by
  intro heap' u hchanged hrep
  have hnext := h.visited hleft hchanged hrep
  have hwhole := hnext.rep hparent
  rw [List.append_assoc, List.singleton_append] at hwhole
  exact hambient heap' _ hnext.changed hwhole

def Visited (js : JavaScript) (top : Json → List (CString × Json)) (t t' : Json) : Prop :=
  ∃ enough, ∀ fuel ≥ enough, ∀ {topJson : ℕ} {heap : List JsonNode} {p : ℕ} {l : List ℕ},
    Layout heap p t l → l.Nodup → Ambient heap l topJson p top →
      ∃ heap', visitJSON js topJson fuel heap p = .ok heap' ∧ Changed heap heap' l ∧
        Rep heap' (Region heap l) p t'

/-- With enough fuel the parts that are left are visited, and all of them become these. -/
def PartsVisited (js : JavaScript) (top : List Json → List (CString × Json))
    (done rest values : List Json) : Prop :=
  ∃ enough, ∀ fuel ≥ enough, ∀ {topJson : ℕ} {heap₀ heap : List JsonNode} {l left : List ℕ} {p : ℕ}
    {node : List ℕ → JsonNode} {tree : List Json → Json} {place : ℕ → Place} {n : ℕ}
    {qs rs : List ℕ}, Parent node tree place n →
      Halfway heap₀ l p node n heap qs done rs rest left → AmbientParts heap₀ l topJson p tree top →
        ∃ heap', (inPlaces place qs.length rs).foldlM (visitPart js topJson fuel p) heap = .ok heap' ∧
          Changed heap₀ heap' l ∧ Rep heap' (Region heap₀ l) p (tree values)

theorem object_visited {props : List (CString × Json)} {values : List Json}
    (hnodup : (props.map Prod.fst).Nodup)
    (h : PartsVisited js top [] (props.map Prod.snd) values) :
    ∃ enough, ∀ fuel ≥ enough, ∀ {topJson : ℕ} {heap : List JsonNode} {p : ℕ} {l : List ℕ},
      Layout heap p (.object props) l → l.Nodup →
      AmbientParts heap l topJson p (fun vs => .object ((props.map Prod.fst).zip vs)) top →
        ∃ heap', visitJSON js topJson fuel heap p = .ok heap' ∧ Changed heap heap' l ∧
          Rep heap' (Region heap l) p (.object ((props.map Prod.fst).zip values)) := by
  obtain ⟨enough, hvisit⟩ := h
  use enough + 1
  intro fuel hfuel topJson heap p l hlayout hl hambient
  obtain ⟨fuel, rfl⟩ := Nat.exists_eq_add_of_le' (Nat.le_of_add_left_le hfuel)
  cases hlayout with
  | @object _ ps _ left hnode hsame hlayouts =>
    obtain ⟨hp, hleft⟩ := List.nodup_cons.mp hl
    have hpairs : JsonNode.object ps = .object ((props.map Prod.fst).zip (ps.map Prod.snd)) := by
      rw [← hsame, zip_fst_snd]
    have hlength : (ps.map Prod.snd).length = (props.map Prod.fst).length := by
      rw [← hsame, List.length_map, List.length_map]
    have hstart : Halfway heap (p :: left) p (fun qs => .object ((props.map Prod.fst).zip qs))
        (props.map Prod.fst).length heap [] [] (ps.map Prod.snd) (props.map Prod.snd) left :=
      ⟨.refl heap _, List.mem_cons_self, hpairs ▸ hnode, hlength, .nil, hlayouts, hleft, hp,
        fun i hi => List.mem_cons_of_mem _ hi⟩
    obtain ⟨heap', hrun, hresult⟩ := hvisit fuel (by omega) (parent_object hnodup) hstart hambient
    refine ⟨heap', ?_, hresult⟩
    rw [visitJSON_object hnode, hsame]
    exact hrun

theorem array_visited {items values : List Json} (h : PartsVisited js top [] items values) :
    ∃ enough, ∀ fuel ≥ enough, ∀ {topJson : ℕ} {heap : List JsonNode} {p : ℕ} {l : List ℕ},
      Layout heap p (.array items) l → l.Nodup → AmbientParts heap l topJson p .array top →
        ∃ heap', visitJSON js topJson fuel heap p = .ok heap' ∧ Changed heap heap' l ∧
          Rep heap' (Region heap l) p (.array values) := by
  obtain ⟨enough, hvisit⟩ := h
  use enough + 1
  intro fuel hfuel topJson heap p l hlayout hl hambient
  obtain ⟨fuel, rfl⟩ := Nat.exists_eq_add_of_le' (Nat.le_of_add_left_le hfuel)
  cases hlayout with
  | @array _ es _ left hnode hlayouts =>
    obtain ⟨hp, hleft⟩ := List.nodup_cons.mp hl
    have hstart : Halfway heap (p :: left) p .array es.length heap [] [] es items left :=
      ⟨.refl heap _, List.mem_cons_self, hnode, rfl, .nil, hlayouts, hleft, hp,
        fun i hi => List.mem_cons_of_mem _ hi⟩
    obtain ⟨heap', hrun, hresult⟩ := hvisit fuel (by omega) (parent_array es.length) hstart hambient
    refine ⟨heap', ?_, hresult⟩
    rw [visitJSON_array hnode]
    exact hrun

mutual

/-- A value is visited to its end, and the templates below it are replaced. -/
theorem Evaluated.visited : ∀ {top : Json → List (CString × Json)} {t t' : Json},
    Evaluated js top t t' → KeysNodup t → Visited js top t t'
  | _, .scalar s, _, .scalar _, _ => by
    use 1
    intro fuel hfuel topJson heap p l hlayout _ _
    obtain ⟨fuel, rfl⟩ := Nat.exists_eq_add_of_le' hfuel
    have hrep := @Layout.rep heap (Region heap l) p _ l hlayout fun i hi => .inl hi
    refine ⟨heap, ?_, .refl heap l, hrep⟩
    rw [visitJSON, node_eq hrep.2]
    rfl
  | top, .object props, _, .object h, hkeys => by
    obtain ⟨hnodup, hvalues⟩ : (props.map Prod.fst).Nodup ∧ ∀ p ∈ props, KeysNodup p.2 := by
      cases hkeys with
      | object keys values => exact ⟨keys, values⟩
    have hparts : ∀ v ∈ props.map Prod.snd, KeysNodup v := by
      intro v hv
      obtain ⟨p, hp, rfl⟩ := List.mem_map.mp hv
      exact hvalues p hp
    obtain ⟨enough, hvisit⟩ := object_visited hnodup (h.visited hparts)
    exact ⟨enough, fun fuel hfuel _ _ _ _ hlayout hl hambient =>
      hvisit fuel hfuel hlayout hl fun heap' vs => hambient heap' _⟩
  | top, .array items, _, .array h, hkeys => by
    have hparts : ∀ v ∈ items, KeysNodup v := by
      cases hkeys with
      | array elements => exact elements
    obtain ⟨enough, hvisit⟩ := array_visited (h.visited hparts)
    exact ⟨enough, fun fuel hfuel _ _ _ _ hlayout hl hambient =>
      hvisit fuel hfuel hlayout hl fun heap' vs => hambient heap' _⟩

theorem EvaluatedParts.visited : ∀ {top : List Json → List (CString × Json)}
    {done rest values : List Json}, EvaluatedParts js top done rest values →
    (∀ v ∈ rest, KeysNodup v) → PartsVisited js top done rest values
  | _, done, [], _, .nil, _ => by
    use 0
    intro fuel _ topJson heap₀ heap l left p node tree place n qs rs hparent h _
    have hrep := h.rep hparent
    rw [List.append_nil] at hrep
    refine ⟨heap, ?_, h.changed, hrep⟩
    obtain ⟨⟩ := h.rest
    rfl
  | top, done, v :: rest, _, .template hv hvalue h, hkeys => by
    obtain ⟨-, hrest⟩ := List.forall_mem_cons.mp hkeys
    obtain ⟨enough, hvisit⟩ := h.visited hrest
    use max enough ((object (top (done ++ v :: rest))).height + 1)
    intro fuel hfuel topJson heap₀ heap l left p node tree place n qs rs hparent h hambient
    have hparts := h.rest
    cases hparts with
    | @cons q _ lq rs _ left hq hleft =>
      have hi : qs.length < n := by
        rw [← h.length, List.length_append, List.length_cons]
        omega
      have htop := hambient heap _ h.changed (h.rep hparent)
      have hheight : (object (top (done ++ v :: rest))).height < fuel := by omega
      have hset : ∀ heap', heap'[p]? = some (node (qs ++ q :: rs)) →
          setInParent heap' p (place qs.length) heap.length =
            .ok (heap'.set p (node (qs ++ heap.length :: rs))) := by
        intro heap' hnode
        rw [hparent.set hnode h.length hi, List.set_append_right _ _ le_rfl, Nat.sub_self]
        rfl
      obtain ⟨heap₁, hrun₁, hchanged₁, hnode₁, hrep₁⟩ := evaluationVisitor_template htop hheight
        (hq.rep fun i hi => hi) hv hvalue h.node hset
      have hchanged : Changed heap heap₁ (p :: lq) :=
        ⟨hchanged₁.length_le, fun i hi hne => hchanged₁.kept i hi fun hmem =>
          hne (List.mem_singleton.mp hmem ▸ List.mem_cons_self)⟩
      have hnext := h.advance hleft hchanged hnode₁ (hrep₁.transport (fun i hi => .inr hi)
        fun _ _ _ hnode => hnode)
      obtain ⟨heap', hrun', hresult⟩ := hvisit fuel (by omega) hparent hnext hambient
      rw [List.length_append, List.length_singleton] at hrun'
      refine ⟨heap', ?_, hresult⟩
      rw [inPlaces_cons, List.foldlM_cons]
      unfold visitPart
      dsimp only
      rw [hrun₁, Exec.ok_bind]
      exact hrun'
  | top, done, v :: rest, _, .part hv hpart h, hkeys => by
    obtain ⟨hkeysv, hrest⟩ := List.forall_mem_cons.mp hkeys
    obtain ⟨enoughPart, hvisitPart⟩ := hpart.visited hkeysv
    obtain ⟨enough, hvisit⟩ := h.visited hrest
    use max enough enoughPart
    intro fuel hfuel topJson heap₀ heap l left p node tree place n qs rs hparent h hambient
    have hparts := h.rest
    cases hparts with
    | @cons q _ lq rs _ left hq hleft =>
      obtain ⟨hlq, -, -⟩ := List.nodup_append.mp h.nodup
      obtain ⟨heap₁, hrun₁, hchanged₁, hrep₁⟩ := hvisitPart fuel (by omega) hq hlq
        (h.ambient hparent hleft hambient)
      have hnext := h.visited hleft hchanged₁ hrep₁
      obtain ⟨heap', hrun', hresult⟩ := hvisit fuel (by omega) hparent hnext hambient
      rw [List.length_append, List.length_singleton] at hrun'
      refine ⟨heap', ?_, hresult⟩
      have hother := @evaluationVisitor_other js heap p q v topJson fuel (place qs.length) _
        (hq.rep fun i hi => hi) hv
      rw [inPlaces_cons, List.foldlM_cons]
      unfold visitPart
      dsimp only
      rw [hother, Exec.ok_bind, if_pos rfl, hrun₁]
      exact hrun'

end

end Visiting

section Whole

variable {js : JavaScript} {heap : List JsonNode} {p : ℕ} {props : List (CString × Json)}

/-- An object is never reported. -/
theorem evaluateJsonTemplates_object {ps : List (CString × ℕ)} (hnode : heap[p]? = some (.object ps))
    (fuel : ℕ) : evaluateJsonTemplates js fuel heap p = do
      let heap' ← visitJSON js p fuel heap p
      return (some p, heap') := by
  unfold evaluateJsonTemplates
  rw [node_eq hnode, Exec.ok_bind]

theorem evaluateJsonTemplates_evaluated {props' : List (CString × Json)}
    (hkeys : KeysNodup (.object props)) (hseparate : Separate heap p (.object props))
    (h : EvaluatedTop js props props') : ∃ enough, ∀ fuel ≥ enough, ∃ heap',
      evaluateJsonTemplates js fuel heap p = .ok (some p, heap') ∧
        Rep heap' Set.univ p (.object props') := by
  obtain ⟨l, hlayout, hl⟩ := hseparate
  obtain ⟨values, hvalues, rfl⟩ := h
  obtain ⟨hnodup, hprops⟩ : (props.map Prod.fst).Nodup ∧ ∀ p ∈ props, KeysNodup p.2 := by
    cases hkeys with
    | object keys values => exact ⟨keys, values⟩
  have hparts : ∀ v ∈ props.map Prod.snd, KeysNodup v := by
    intro v hv
    obtain ⟨p, hp, rfl⟩ := List.mem_map.mp hv
    exact hprops p hp
  obtain ⟨enough, hvisit⟩ := object_visited hnodup (hvalues.visited hparts)
  use enough
  intro fuel hfuel
  obtain ⟨heap', hrun, -, hrep⟩ := hvisit fuel hfuel hlayout hl fun heap' vs _ hrep =>
    hrep.transport (Set.subset_univ _) fun _ _ _ hnode => hnode
  cases hlayout with
  | object hnode _ _ =>
    refine ⟨heap', ?_, hrep.transport (Set.subset_univ _) fun _ _ _ hnode => hnode⟩
    rw [evaluateJsonTemplates_object hnode, hrun]
    rfl

/-- What fails is not reported, so the law holds only where nothing does. -/
theorem TemplateLaw.evaluated (hseparate : Separate heap p (.object props))
    (h : TemplateLaw js heap p props) : ∃ props', EvaluatedTop js props props' := by
  by_contra hnone
  rw [not_exists] at hnone
  obtain ⟨enough, hrun⟩ := h.2 hnone
  obtain ⟨heap', hrun⟩ := hrun enough le_rfl
  obtain ⟨l, hlayout, -⟩ := hseparate
  cases hlayout with
  | object hnode _ _ =>
    rw [evaluateJsonTemplates_object hnode] at hrun
    obtain ⟨heap'', -, hresult⟩ := Exec.bind_eq_ok.mp hrun
    cases hresult

end Whole

/-- Evaluation is exact or reported exactly if every template below the top stands for a value. -/
theorem templateLaw_iff {js : JavaScript} {heap : List JsonNode} {p : ℕ}
    {props : List (CString × Json)} (hkeys : KeysNodup (.object props))
    (hseparate : Separate heap p (.object props)) :
    TemplateLaw js heap p props ↔ ∃ props', EvaluatedTop js props props' := by
  constructor
  · exact fun h => h.evaluated hseparate
  · intro ⟨props', h⟩
    constructor
    · exact fun props' h => evaluateJsonTemplates_evaluated hkeys hseparate h
    · exact fun hnone => absurd h (hnone props')

/-- A template under a key. -/
def portTemplate : List (CString × Json) :=
  [(ofBytes (ascii "port"), .object
    [(ZOWE_INTERNAL_TYPE, .scalar (.string ZOWE_UNEVALUATED)),
      (SOURCE, .scalar (.string (ofBytes (ascii "basePort+1"))))])]

def portHeap : List JsonNode :=
  [.object [(ofBytes (ascii "port"), 1)], .object [(ZOWE_INTERNAL_TYPE, 2), (SOURCE, 3)],
    .scalar (.string ZOWE_UNEVALUATED), .scalar (.string (ofBytes (ascii "basePort+1")))]

theorem portTemplate_keys : KeysNodup (.object portTemplate) := by
  have hparts : KeysNodup (.object
      [(ZOWE_INTERNAL_TYPE, .scalar (.string ZOWE_UNEVALUATED)),
        (SOURCE, .scalar (.string (ofBytes (ascii "basePort+1"))))]) := by
    refine .object (by decide) ?_
    intro q hq
    obtain rfl | rfl := by simpa only [List.mem_cons, List.not_mem_nil, or_false] using hq
    · exact .scalar _
    · exact .scalar _
  refine .object (by decide) ?_
  intro q hq
  rw [List.mem_singleton.mp hq]
  exact hparts

theorem portTemplate_separate : Separate portHeap 0 (.object portTemplate) :=
  ⟨0 :: ((1 :: ([2] ++ ([3] ++ []))) ++ []), .object rfl rfl (.cons (.object rfl rfl
    (.cons (.scalar rfl) (.cons (.scalar rfl) .nil))) .nil), by decide⟩

theorem templateLaw_port :
    TemplateLaw (fun _ _ => some (.int 7557)) portHeap 0 portTemplate := by
  refine (templateLaw_iff portTemplate_keys portTemplate_separate).mpr
    ⟨_, [.scalar (.int64 ((7557 : BitVec 32).signExtend 64))], ?_, rfl⟩
  have hv : Unevaluated (.object
      [(ZOWE_INTERNAL_TYPE, .scalar (.string ZOWE_UNEVALUATED)),
        (SOURCE, .scalar (.string (ofBytes (ascii "basePort+1"))))]) := by rfl
  exact .template hv (.value (by rfl) rfl rfl) .nil

/-- An evaluation that fails leaves the template in its place, and success is reported. -/
theorem not_templateLaw :
    ¬∀ (js : JavaScript) (heap : List JsonNode) (p : ℕ) (props : List (CString × Json)),
      KeysNodup (.object props) → Separate heap p (.object props) → TemplateLaw js heap p props := by
  intro h
  have hlaw := h (fun _ _ => none) portHeap 0 portTemplate portTemplate_keys portTemplate_separate
  obtain ⟨props', values, hvalues, -⟩ := hlaw.evaluated portTemplate_separate
  cases hvalues with
  | template hv hvalue _ =>
    cases hvalue with
    | value hsource heval hform => cases heval
  | part hv _ _ => exact hv rfl

end ZoweCommon
