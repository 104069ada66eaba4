import ZoweCommon.Config.Dereference
import ZoweCommon.Config.TemplatesExact
import ZoweCommon.Json.Grows
import ZoweCommon.Yaml.ReaderCorrect

/-! A configuration is loaded: what is on its path is merged and its templates are evaluated. -/
namespace ZoweCommon

open Json CString YamlTree

def ZCFG_EVAL_FAILURE : ℕ := 2

def replaceConfig (configName : CString) (config : CFGConfig) :
    List (CString × CFGConfig) → List (CString × CFGConfig)
  | [] => []
  | c :: configs =>
    if c.1 = configName then (c.1, config) :: configs else c :: replaceConfig configName config configs

/-- The status and the manager. The path is read without a test for an empty one, and the type of
the data is read also where there is none. -/
def cfgLoadConfiguration2 (env : Environment) (js : JavaScript) (fuel : ℕ) (mgr : ConfigManager)
    (configName : CString) (arrayMergePolicy : BitVec 32) : Exec (ℕ × ConfigManager) :=
  match getConfig mgr configName with
  | none => return (ZCFG_UNKNOWN_CONFIG_NAME, mgr)
  | some config =>
    match config.configPath with
    | [] => throw .undefinedBehaviour
    | pathElement :: pathTail => do
      let (overloadStatus, config, slh) ←
        overloadConfiguration env arrayMergePolicy fuel mgr.slh config pathElement pathTail
      let configs := replaceConfig configName config mgr.configs
      if overloadStatus ≠ 0 then return (overloadStatus, ⟨configs, slh⟩)
      match config.configData with
      | none => throw .undefinedBehaviour
      | some configData =>
        let (evaluatedConfig, slh) ← evaluateJsonTemplates js fuel slh configData
        match evaluatedConfig with
        | some evaluatedConfig =>
          let config := { config with configData := some evaluatedConfig }
          return (ZCFG_SUCCESS, ⟨replaceConfig configName config configs, slh⟩)
        | none => return (ZCFG_EVAL_FAILURE, ⟨configs, slh⟩)

/-- Whether a node that has no parent gives a value: the address of a template is not returned. -/
def YamlNode.hasValue : YamlNode → Bool
  | .noNode => false
  | .scalar tag value style =>
    !isTemplate tag value style &&
      match scalarPart tag value style with
      | .ok (some _) => true
      | _ => false
  | .sequence _ => true
  | .mapping _ => true

namespace JsonBuilder

variable {b b' : JsonBuilder} {parent : Option ℕ} {parentKey : Option CString}

structure Converted (b b' : JsonBuilder) (parent : Option ℕ) (node : YamlNode)
    (json : Option ℕ) : Prop extends Grows b b' parent where
  isSome : json.isSome = node.hasValue
  address : ∀ a, json = some a → a = b.heap.length ∧ a < b'.heap.length ∧
    (IsObject b'.heap a ↔ ∃ pairs, node = .mapping pairs)

theorem Made.converted {object : Prop} {node : YamlNode} (h : Made b b' parent object)
    (hnode : node.hasValue = true) (hobject : object ↔ ∃ pairs, node = .mapping pairs) :
    Converted b b' parent node (some b.heap.length) := by
  refine ⟨h.toGrows, hnode.symm, fun a ha => ?_⟩
  cases ha
  exact ⟨rfl, h.length_lt, h.isObject.trans hobject⟩

/-- Only a template is built from more than one node. -/
theorem scalarPart_scalar {tag : CString} {value : List Byte} {style : YamlScalarStyle} {j : Json}
    (htemplate : isTemplate tag value style = false)
    (h : scalarPart tag value style = .ok (some j)) : ∃ s, j = .scalar s := by
  unfold scalarPart at h
  dsimp only at h
  split_ifs at h with _ _ _ _ _ hbad
  · cases h
    exact ⟨_, rfl⟩
  · rw [Exec.bind_eq_ok] at h
    obtain ⟨⟨x, valid⟩, -, h⟩ := h
    cases valid <;> cases h
    exact ⟨_, rfl⟩
  · cases h
    exact ⟨_, rfl⟩
  · cases h
  · exact absurd (htemplate.symm.trans hbad) Bool.false_ne_true
  · cases h
  · cases h
    exact ⟨_, rfl⟩
  · cases h

theorem Slot.scalar_converted (h : Slot b parent parentKey) {tag : CString} {value : List Byte}
    {style : YamlScalarStyle} {json : Option ℕ}
    (hrun : (do
      let (value, _, b) ← ZoweCommon.scalar2JSON b parent parentKey tag value style
      return (value, b)) = .ok (json, b')) :
    Converted b b' parent (.scalar tag value style) json := by
  have hbuilds := h.scalar2JSON tag value style
  rw [hrun] at hbuilds
  cases hpart : scalarPart tag value style with
  | error fault =>
    rw [hpart] at hbuilds
    cases hbuilds
  | ok part =>
    rw [hpart] at hbuilds
    cases part with
    | none =>
      cases hbuilds
      refine ⟨.refl b parent, ?_, nofun⟩
      rw [YamlNode.hasValue, hpart, Bool.and_false]
      rfl
    | some j =>
      obtain ⟨b₁, hb₁, hbuilt⟩ := hbuilds
      cases htemplate : isTemplate tag value style with
      | true =>
        rw [htemplate] at hb₁
        cases hb₁
        refine ⟨hbuilt.placed.grows hbuilt.kept, ?_, nofun⟩
        rw [YamlNode.hasValue, htemplate]
        rfl
      | false =>
        rw [htemplate] at hb₁
        cases hb₁
        refine ⟨hbuilt.placed.grows hbuilt.kept, ?_, fun a ha => ?_⟩
        · rw [YamlNode.hasValue, htemplate, hpart]
          rfl
        · cases ha
          obtain ⟨s, rfl⟩ := scalarPart_scalar htemplate hpart
          have hnode : b'.heap[b.heap.length]? = some (.scalar s) := hbuilt.rep
          refine ⟨rfl, lt_length_of_getElem? hnode, ?_⟩
          rw [Json.isObject_iff_of_node hnode]
          simp

theorem Slot.yaml2JSON1_converted {doc : YamlDocument} {fuel : ℕ} {node : YamlNode}
    {json : Option ℕ} (h : Slot b parent parentKey)
    (hrun : yaml2JSON1 doc fuel b parent parentKey node = .ok (json, b')) :
    Converted b b' parent node json := by
  induction fuel generalizing b b' parent parentKey node json with
  | zero => cases hrun
  | succ fuel ih =>
    cases node with
    | noNode =>
      cases hrun
      exact ⟨.refl b parent, rfl, nofun⟩
    | scalar tag value style => exact h.scalar_converted hrun
    | sequence items =>
      obtain ⟨b₁, hbuild, hmade, hnew⟩ := h.build_made (.array [])
      rw [yaml2JSON1, JsonBuilder.jsonBuildArray, hbuild, Exec.ok_bind] at hrun
      dsimp only at hrun
      rw [Exec.bind_eq_ok] at hrun
      obtain ⟨b₂, hloop, hrun⟩ := hrun
      cases hrun
      have hslot : Slot b₁ (some b.heap.length) none := .element hnew
      have hgrows : Grows b₁ b' (some b.heap.length) := by
        refine Slot.foldlM_grows (fun b item b' hs hx => ?_) items hslot hloop
        cases hget : yaml_document_get_node doc item with
        | none =>
          rw [hget] at hx
          cases hx
          exact .refl _ _
        | some nextNode =>
          rw [hget] at hx
          dsimp only at hx
          rw [Exec.bind_eq_ok] at hx
          obtain ⟨⟨json, b₃⟩, hnext, hx⟩ := hx
          cases hx
          exact (ih hs hnext).toGrows
      apply (hmade.below hslot hgrows).converted rfl
      simp
    | mapping pairs =>
      obtain ⟨b₁, hbuild, hmade, hnew⟩ := h.build_made (.object [])
      rw [yaml2JSON1, JsonBuilder.jsonBuildObject, hbuild, Exec.ok_bind] at hrun
      dsimp only at hrun
      rw [Exec.bind_eq_ok] at hrun
      obtain ⟨b₂, hloop, hrun⟩ := hrun
      cases hrun
      have hslot : Slot b₁ (some b.heap.length) (some (ofBytes [])) := .property _ hnew
      have hgrows : Grows b₁ b' (some b.heap.length) := by
        refine Slot.foldlM_grows (fun b pair b' hs hx => ?_) pairs hslot hloop
        rw [Exec.bind_eq_ok] at hx
        obtain ⟨key, -, hx⟩ := hx
        cases key with
        | none =>
          cases hx
          exact .refl _ _
        | some keyNative =>
          dsimp only at hx
          cases hget : yaml_document_get_node doc pair.2 with
          | none =>
            rw [hget] at hx
            cases hx
            exact .refl _ _
          | some valueNode =>
            rw [hget] at hx
            dsimp only at hx
            rw [Exec.bind_eq_ok] at hx
            obtain ⟨⟨json, b₃⟩, hvalue, hx⟩ := hx
            cases hx
            exact (ih (hs.rekey keyNative) hvalue).toGrows
      apply (hmade.below hslot hgrows).converted rfl
      simp

end JsonBuilder

section Path

variable (env : Environment) (config : CFGConfig)

def document (pathElement : ConfigPathElement) : Option YamlDocument :=
  if pathElement.flags &&& CONFIG_PATH_OMVS_FILE ≠ 0 then
    (readYAML2 env ((env.realpath pathElement.data).getD pathElement.data)).1
  else if pathElement.flags &&& CONFIG_PATH_MVS_PARMLIB ≠ 0 then
    config.parmlibMemberName.bind fun parmlibMemberName =>
      (readYAML2 env (pdsMemberSpec pathElement.data parmlibMemberName)).1
  else none

/-- The top of that document, unless there is no value for it. -/
def topNode (pathElement : ConfigPathElement) : Option YamlNode :=
  ((document env config pathElement).bind yaml_document_get_root_node).filter YamlNode.hasValue

/-- A member that stands for several libraries need not be in all of them. -/
def isOptional (pathElement : ConfigPathElement) : Bool :=
  pathElement.flags &&& CONFIG_PATH_OMVS_FILE = 0 &&
    pathElement.flags &&& CONFIG_PATH_MVS_PARMLIB ≠ 0 &&
    pathElement.flags &&& CONFIG_PATH_WAS_EXPANDED ≠ 0

def Found (pathElement : ConfigPathElement) : Prop :=
  (topNode env config pathElement).isSome ∨ isOptional pathElement

structure ElementRead (slh : List JsonNode) (pathElement : ConfigPathElement) (json : Option ℕ)
    (slh' : List JsonNode) : Prop where
  isPrefix : slh <+: slh'
  isSome : json.isSome = (topNode env config pathElement).isSome
  address : ∀ a, json = some a → a = slh.length ∧ a < slh'.length ∧
    (IsObject slh' a ↔ ∃ pairs, topNode env config pathElement = some (.mapping pairs))

variable {env config}

theorem readYAML2_root {filename : CString} {doc : YamlDocument}
    (h : (readYAML2 env filename).1 = some doc) : ∃ root, yaml_document_get_root_node doc = some root := by
  unfold readYAML2 at h
  cases hopen : env.fopen filename with
  | none =>
    rw [hopen] at h
    cases h
  | some file =>
    rw [hopen] at h
    cases hload : env.yaml_parser_load file with
    | none =>
      simp only [hload] at h
      cases h
    | some document =>
      simp only [hload] at h
      cases hroot : yaml_document_get_root_node document with
      | none =>
        simp only [hroot] at h
        cases h
      | some root =>
        simp only [hroot] at h
        cases h
        exact ⟨root, hroot⟩

theorem readYamlIntoJson_read {fuel : ℕ} {slh slh' : List JsonNode} {filename : CString}
    {allowMissingFile : Bool} {json : Option ℕ} {pathElement : ConfigPathElement}
    (hdocument : document env config pathElement = (readYAML2 env filename).1)
    (hrun : readYamlIntoJson env fuel slh filename allowMissingFile = .ok (json, slh')) :
    ElementRead env config slh pathElement json slh' := by
  unfold readYamlIntoJson at hrun
  obtain ⟨hread, found⟩ : ∃ r, r = readYAML2 env filename := ⟨_, rfl⟩
  rw [← found] at hrun hdocument
  obtain ⟨document', wasMissing⟩ := hread
  cases document' with
  | none =>
    have htop : topNode env config pathElement = none := by
      unfold topNode
      rw [hdocument]
      rfl
    have hnone : json = none ∧ slh' = slh := by
      dsimp only at hrun
      split_ifs at hrun <;> cases hrun <;> exact ⟨rfl, rfl⟩
    obtain ⟨rfl, rfl⟩ := hnone
    refine ⟨List.prefix_refl slh', ?_, nofun⟩
    rw [htop]
    rfl
  | some doc =>
    obtain ⟨root, hroot⟩ := readYAML2_root (congrArg Prod.fst found).symm
    have htop : topNode env config pathElement = (some root).filter YamlNode.hasValue := by
      unfold topNode
      rw [hdocument]
      exact congrArg (Option.filter _) hroot
    dsimp only at hrun
    unfold yaml2JSON at hrun
    rw [hroot] at hrun
    dsimp only at hrun
    rw [Exec.bind_eq_ok] at hrun
    obtain ⟨⟨json₁, builder⟩, hconvert, hrun⟩ := hrun
    cases hrun
    have hconverted := JsonBuilder.Slot.yaml2JSON1_converted .root hconvert
    refine ⟨hconverted.kept.isPrefix, ?_, fun a ha => ?_⟩
    · rw [htop, hconverted.isSome, Option.filter_some]
      cases root.hasValue <;> rfl
    · obtain ⟨haddress, hlt, hobject⟩ := hconverted.address a ha
      have hvalue : root.hasValue = true := by
        have ha' : json₁ = some a := ha
        rw [← hconverted.isSome, ha']
        rfl
      refine ⟨haddress, hlt, hobject.trans ?_⟩
      rw [htop, Option.filter_some, if_pos hvalue]
      simp only [Option.some_inj]

theorem readJson_read {fuel : ℕ} {slh slh' : List JsonNode} {pathElement : ConfigPathElement}
    {json : Option ℕ} {nullAllowed : Bool}
    (hrun : readJson env fuel slh config pathElement = .ok (json, nullAllowed, slh')) :
    nullAllowed = isOptional pathElement ∧ ElementRead env config slh pathElement json slh' := by
  unfold readJson at hrun
  by_cases homvs : pathElement.flags &&& CONFIG_PATH_OMVS_FILE ≠ 0
  · rw [if_pos homvs, Exec.bind_eq_ok] at hrun
    obtain ⟨absolutePath, hpath, hrun⟩ := hrun
    rw [Exec.bind_eq_ok] at hrun
    obtain ⟨⟨json₁, slh₁⟩, hread, hrun⟩ := hrun
    cases hrun
    have hname : absolutePath = (env.realpath pathElement.data).getD pathElement.data := by
      unfold getAbsolutePathOrKeepRelativePath at hpath
      cases hreal : env.realpath pathElement.data <;> rw [hreal] at hpath <;> dsimp only at hpath <;>
        split_ifs at hpath <;> cases hpath <;> rfl
    refine ⟨?_, readYamlIntoJson_read ?_ hread⟩
    · unfold isOptional
      rw [decide_eq_false homvs]
      rfl
    · unfold document
      rw [if_pos homvs, hname]
  · rw [if_neg homvs] at hrun
    by_cases hmvs : pathElement.flags &&& CONFIG_PATH_MVS_PARMLIB ≠ 0
    · rw [if_pos hmvs] at hrun
      cases hmember : config.parmlibMemberName with
      | none =>
        rw [hmember] at hrun
        cases hrun
      | some parmlibMemberName =>
        rw [hmember] at hrun
        dsimp only at hrun
        rw [Exec.bind_eq_ok] at hrun
        obtain ⟨⟨json₁, slh₁⟩, hread, hrun⟩ := hrun
        cases hrun
        refine ⟨?_, readYamlIntoJson_read ?_ hread⟩
        · unfold isOptional
          rw [decide_eq_true (not_not.mp homvs), decide_eq_true hmvs]
          rfl
        · unfold document
          rw [if_neg homvs, if_pos hmvs, hmember]
          rfl
    · rw [if_neg hmvs] at hrun
      cases hrun
      have htop : topNode env config pathElement = none := by
        unfold topNode document
        rw [if_neg homvs, if_neg hmvs]
        rfl
      refine ⟨?_, List.prefix_refl slh, ?_, nofun⟩
      · unfold isOptional
        rw [decide_eq_false hmvs, Bool.and_false]
        rfl
      · rw [htop]
        rfl

variable (env config)

inductive Overloaded (slh : List JsonNode) (path : List ConfigPathElement) (slh' : List JsonNode) :
    ℕ → Option ℕ → Prop
  /-- What is merged over something else is missing. -/
  | overlayMissing (h : ∃ e ∈ path.dropLast, ¬Found env config e) :
      Overloaded slh path slh' ZCFG_MISSING_CONFIG_SOURCE config.configData
  /-- What everything else is merged over is missing. -/
  | baseMissing (hfound : ∀ e ∈ path.dropLast, Found env config e)
      (h : ∃ e ∈ path.getLast?, ¬Found env config e) :
      Overloaded slh path slh' ZCFG_MISSING_CONFIG_SOURCE none
  | noData (hfound : ∀ e ∈ path, Found env config e)
      (h : path.filterMap (topNode env config) = []) : Overloaded slh path slh' ZCFG_SUCCESS none
  | loaded {a : ℕ} {node : YamlNode} (hfound : ∀ e ∈ path, Found env config e)
      (hfirst : (path.filterMap (topNode env config)).head? = some node)
      (hnew : slh.length ≤ a) (hlt : a < slh'.length)
      (hobject : IsObject slh' a ↔ ∃ pairs, node = .mapping pairs) :
      Overloaded slh path slh' ZCFG_SUCCESS (some a)

variable {env config}

theorem ElementRead.found {slh slh' : List JsonNode} {pathElement : ConfigPathElement}
    {json : Option ℕ} (h : ElementRead env config slh pathElement json slh') :
    Found env config pathElement ↔ ¬(json = none && !isOptional pathElement) := by
  unfold Found
  rw [← h.isSome]
  cases json <;> simp

theorem ElementRead.topNode_eq_none {slh slh' : List JsonNode} {pathElement : ConfigPathElement}
    (h : ElementRead env config slh pathElement none slh') :
    topNode env config pathElement = none :=
  Option.not_isSome_iff_eq_none.mp (Bool.not_eq_true _ ▸ h.isSome.symm)

theorem isObject_of_extends {heap heap' : List JsonNode} (h : heap <+: heap') {a : ℕ}
    (ha : a < heap.length) : IsObject heap' a ↔ IsObject heap a := by
  obtain ⟨rest, rfl⟩ := h
  unfold IsObject
  rw [List.getElem?_append_left ha]

/-- The data changes at the end of the path, and then with each overlay on the way back. -/
theorem overloadConfiguration_overloaded {policy : BitVec 32} {fuel status : ℕ}
    {config' : CFGConfig} (pathTail : List ConfigPathElement) :
    ∀ {slh slh' : List JsonNode} {pathElement : ConfigPathElement},
      overloadConfiguration env policy fuel slh config pathElement pathTail =
        .ok (status, config', slh') →
      slh <+: slh' ∧ config' = { config with configData := config'.configData } ∧
        Overloaded env config slh (pathElement :: pathTail) slh' status config'.configData := by
  induction pathTail generalizing status config' with
  | nil =>
    intro slh slh' pathElement hrun
    rw [overloadConfiguration, Exec.bind_eq_ok] at hrun
    obtain ⟨⟨json, dontCare, slh₁⟩, hread, hrun⟩ := hrun
    obtain ⟨rfl, helement⟩ := readJson_read hread
    dsimp only at hrun
    split_ifs at hrun with hmissing
    · cases hrun
      refine ⟨helement.isPrefix, rfl, ?_⟩
      have hjson : json = none := by
        rw [Bool.and_eq_true] at hmissing
        exact of_decide_eq_true hmissing.1
      subst hjson
      exact .baseMissing (by simp) ⟨pathElement, rfl, fun h => helement.found.mp h hmissing⟩
    · cases hrun
      have hfound : ∀ e ∈ [pathElement], Found env config e := by
        intro e he
        rw [List.mem_singleton.mp he]
        exact helement.found.mpr hmissing
      refine ⟨helement.isPrefix, rfl, ?_⟩
      cases json with
      | none =>
        refine .noData hfound ?_
        rw [List.filterMap_cons_none helement.topNode_eq_none]
        rfl
      | some a =>
        obtain ⟨haddress, hlt, hobject⟩ := helement.address a rfl
        obtain ⟨node, hnode⟩ := Option.isSome_iff_exists.mp helement.isSome.symm
        rw [hnode] at hobject
        simp only [Option.some_inj] at hobject
        refine .loaded hfound ?_ (Nat.le_of_eq haddress.symm) hlt hobject
        rw [List.filterMap_cons_some hnode]
        rfl
  | cons next pathTail ih =>
    intro slh slh' pathElement hrun
    rw [overloadConfiguration, Exec.bind_eq_ok] at hrun
    obtain ⟨⟨overlay, nullAllowed, slh₁⟩, hread, hrun⟩ := hrun
    obtain ⟨rfl, helement⟩ := readJson_read hread
    dsimp only at hrun
    have hlast : (pathElement :: next :: pathTail).getLast? = (next :: pathTail).getLast? :=
      List.getLast?_cons_cons
    have hdrop : (pathElement :: next :: pathTail).dropLast =
        pathElement :: (next :: pathTail).dropLast := List.dropLast_cons_cons
    split_ifs at hrun with hmissing
    · cases hrun
      refine ⟨helement.isPrefix, rfl, .overlayMissing ⟨pathElement, ?_, ?_⟩⟩
      · rw [hdrop]
        exact List.mem_cons_self
      · exact fun h => helement.found.mp h hmissing
    · rw [Exec.bind_eq_ok] at hrun
      obtain ⟨⟨rhsStatus, config₁, slh₂⟩, hrhs, hrun⟩ := hrun
      obtain ⟨hextends, hconfig, hover⟩ := ih hrhs
      have hfound : Found env config pathElement := helement.found.mpr hmissing
      have hextends₂ := helement.isPrefix.trans hextends
      dsimp only at hrun
      generalize hdata : config₁.configData = data at hover hrun hconfig
      cases hover with
      | overlayMissing h =>
        cases hrun
        obtain ⟨e, he, hmiss⟩ := h
        refine ⟨hextends₂, by rw [hdata]; exact hconfig, ?_⟩
        rw [hdata]
        refine .overlayMissing ⟨e, ?_, hmiss⟩
        rw [hdrop]
        exact List.mem_cons_of_mem _ he
      | baseMissing hall h =>
        cases hrun
        refine ⟨hextends₂, by rw [hdata]; exact hconfig, ?_⟩
        rw [hdata]
        refine .baseMissing ?_ (hlast ▸ h)
        rw [hdrop]
        exact List.forall_mem_cons.mpr ⟨hfound, hall⟩
      | noData hall h =>
        rw [if_neg (by decide)] at hrun
        cases overlay with
        | some overlay => cases hrun
        | none =>
          cases hrun
          refine ⟨hextends₂, by rw [hdata]; exact hconfig, ?_⟩
          rw [hdata]
          refine .noData (List.forall_mem_cons.mpr ⟨hfound, hall⟩) ?_
          rw [List.filterMap_cons_none helement.topNode_eq_none]
          exact h
      | @loaded base node hall hfirst hnew hlt hobject =>
        rw [if_neg (by decide)] at hrun
        cases overlay with
        | none =>
          cases hrun
          refine ⟨hextends₂, by rw [hdata]; exact hconfig, ?_⟩
          rw [hdata]
          refine .loaded (List.forall_mem_cons.mpr ⟨hfound, hall⟩) ?_
            (helement.isPrefix.length_le.trans hnew) hlt hobject
          rw [List.filterMap_cons_none helement.topNode_eq_none]
          exact hfirst
        | some overlay =>
          dsimp only at hrun
          rw [Exec.bind_eq_ok] at hrun
          obtain ⟨⟨merged, mergeStatus, slh₃⟩, hmerge, hrun⟩ := hrun
          cases hrun
          obtain ⟨rfl, rfl, hextends₃, hlt₃, hobject₃⟩ := jsonMerge_new hmerge
          obtain ⟨haddress, hlt₁, hobject₁⟩ := helement.address overlay rfl
          obtain ⟨node₁, hnode₁⟩ := Option.isSome_iff_exists.mp helement.isSome.symm
          rw [hnode₁] at hobject₁
          simp only [Option.some_inj] at hobject₁
          refine ⟨hextends₂.trans hextends₃, ?_, ?_⟩
          · rw [hconfig]
          · apply Overloaded.loaded (List.forall_mem_cons.mpr ⟨hfound, hall⟩) _
              hextends₂.length_le hlt₃
              ((hobject₃.trans (isObject_of_extends hextends hlt₁)).trans hobject₁)
            rw [List.filterMap_cons_some hnode₁]
            rfl

end Path

section Growth

end Growth

section Manager

variable {mgr mgr' : ConfigManager} {configName : CString}

theorem getConfig_replaceConfig {config config' : CFGConfig} {slh : List JsonNode}
    (h : getConfig mgr configName = some config) :
    getConfig ⟨replaceConfig configName config' mgr.configs, slh⟩ configName = some config' := by
  unfold getConfig at h ⊢
  obtain ⟨configs, _⟩ := mgr
  dsimp only at h ⊢
  induction configs with
  | nil => cases h
  | cons c configs ih =>
    rw [replaceConfig]
    by_cases hc : c.1 = configName
    · rw [if_pos hc]
      simp [hc]
    · rw [if_neg hc]
      simp only [List.find?_cons, decide_eq_false hc] at h ⊢
      exact ih h

/-- The data of every configuration is in memory. -/
def ConfigManager.DataInMemory (mgr : ConfigManager) : Prop :=
  ∀ configName config a, getConfig mgr configName = some config → config.configData = some a →
    a < mgr.slh.length

/-- The data of the configuration is what it was: the same address, and everything that was in
memory is still there. -/
def SameData (configName : CString) (mgr mgr' : ConfigManager) : Prop :=
  (getConfig mgr' configName).map CFGConfig.configData =
      (getConfig mgr configName).map CFGConfig.configData ∧
    mgr.slh <+: mgr'.slh

/-- A failure leaves the data alone: it comes before the end of the path is read, or there is no
data and it is the end that is missing, or it does not come at all, because the topmost document is
an object. -/
def LoadsAtomically (env : Environment) (config : CFGConfig) : Prop :=
  (∀ e ∈ config.configPath.dropLast, Found env config e) →
    ((∃ e ∈ config.configPath.getLast?, ¬Found env config e) → config.configData = none) ∧
      ((∀ e ∈ config.configPath, Found env config e) →
        ∀ node ∈ (config.configPath.filterMap (topNode env config)).head?,
          ∃ pairs, node = .mapping pairs)

theorem SameData.refl (configName : CString) (mgr : ConfigManager) : SameData configName mgr mgr :=
  ⟨rfl, List.prefix_refl _⟩

theorem evaluateJsonTemplates_status {js : JavaScript} {fuel json : ℕ} {heap heap' : List JsonNode}
    {result : Option ℕ} (hrun : evaluateJsonTemplates js fuel heap json = .ok (result, heap')) :
    (IsObject heap json ∧ result = some json) ∨ (¬IsObject heap json ∧ result = none) := by
  rw [evaluateJsonTemplates, Exec.bind_eq_ok] at hrun
  obtain ⟨n, hn, hrun⟩ := hrun
  have hiff := Json.isObject_iff_of_node (JsonBuilder.node_eq_ok hn)
  cases n with
  | object ps =>
    dsimp only at hrun
    rw [Exec.bind_eq_ok] at hrun
    obtain ⟨heap₁, -, hrun⟩ := hrun
    cases hrun
    exact .inl ⟨hiff.mpr ⟨ps, rfl⟩, rfl⟩
  | scalar s =>
    cases hrun
    refine .inr ⟨fun h => ?_, rfl⟩
    obtain ⟨ps, hps⟩ := hiff.mp h
    cases hps
  | array es =>
    cases hrun
    refine .inr ⟨fun h => ?_, rfl⟩
    obtain ⟨ps, hps⟩ := hiff.mp h
    cases hps

theorem cfgLoadConfiguration2_atomic_iff {env : Environment} {js : JavaScript} {fuel status : ℕ}
    {policy : BitVec 32} (hvalid : mgr.DataInMemory)
    (hrun : cfgLoadConfiguration2 env js fuel mgr configName policy = .ok (status, mgr')) :
    (status ≠ ZCFG_SUCCESS → SameData configName mgr mgr') ↔
      ∀ config ∈ getConfig mgr configName, LoadsAtomically env config := by
  unfold cfgLoadConfiguration2 at hrun
  cases hget : getConfig mgr configName with
  | none =>
    rw [hget] at hrun
    cases hrun
    exact ⟨fun _ => nofun, fun _ _ => .refl configName mgr⟩
  | some config =>
    rw [hget] at hrun
    dsimp only at hrun
    cases hpath : config.configPath with
    | nil =>
      rw [hpath] at hrun
      cases hrun
    | cons pathElement pathTail =>
      rw [hpath] at hrun
      dsimp only at hrun
      rw [Exec.bind_eq_ok] at hrun
      obtain ⟨⟨overloadStatus, config₁, slh₁⟩, hover, hrun⟩ := hrun
      obtain ⟨hextends, hconfig, hover⟩ := overloadConfiguration_overloaded pathTail hover
      have hfind : ∀ slh, getConfig ⟨replaceConfig configName config₁ mgr.configs, slh⟩ configName =
          some config₁ := fun slh => getConfig_replaceConfig hget
      have hiff : (∀ c ∈ some config, LoadsAtomically env c) ↔ LoadsAtomically env config := by
        simp only [Option.mem_def, Option.some_inj, forall_eq']
      have hsame : ∀ slh, SameData configName mgr
          ⟨replaceConfig configName config₁ mgr.configs, slh⟩ ↔
            config₁.configData = config.configData ∧ mgr.slh <+: slh := by
        intro slh
        unfold SameData
        rw [hfind slh, hget, Option.map_some, Option.map_some, Option.some_inj]
      rw [hiff, LoadsAtomically, hpath]
      dsimp only at hrun
      generalize hdata : config₁.configData = data at hover hrun hsame
      cases hover with
      | overlayMissing h =>
        rw [if_pos (by decide)] at hrun
        cases hrun
        obtain ⟨e, he, hmissing⟩ := h
        constructor
        · exact fun _ hall => absurd (hall e he) hmissing
        · exact fun _ _ => (hsame _).mpr ⟨rfl, hextends⟩
      | baseMissing hall h =>
        rw [if_pos (by decide)] at hrun
        cases hrun
        have hnotAll : ¬∀ e ∈ pathElement :: pathTail, Found env config e := by
          obtain ⟨e, he, hmissing⟩ := h
          exact fun hfound => hmissing (hfound e (List.mem_of_getLast? he))
        constructor
        · intro hproperty _
          have hnone := ((hsame _).mp (hproperty (by decide))).1
          exact ⟨fun _ => hnone.symm, fun hfound => absurd hfound hnotAll⟩
        · intro hcond _
          have hnone := (hcond hall).1 h
          exact (hsame _).mpr ⟨hnone.symm, hextends⟩
      | noData hall h =>
        rw [if_neg (by decide)] at hrun
        cases hrun
      | @loaded a node hall hfirst hnew hlt hobject =>
        rw [if_neg (by decide)] at hrun
        dsimp only at hrun
        rw [Exec.bind_eq_ok] at hrun
        obtain ⟨⟨evaluatedConfig, slh₂⟩, heval, hrun⟩ := hrun
        have hlast : ∀ e ∈ (pathElement :: pathTail).getLast?, Found env config e :=
          fun e he => hall e (List.mem_of_getLast? he)
        obtain ⟨hobj, rfl⟩ | ⟨hobj, rfl⟩ := evaluateJsonTemplates_status heval
        · -- the evaluation succeeds
          cases hrun
          refine ⟨fun _ _ => ⟨fun ⟨e, he, hmissing⟩ => absurd (hlast e he) hmissing, ?_⟩,
            fun _ hstatus => absurd rfl hstatus⟩
          intro _ n hn
          rw [hfirst] at hn
          cases hn
          exact hobject.mp hobj
        · -- it fails, with the new data in place
          cases hrun
          constructor
          · intro hproperty
            have hdata' := ((hsame _).mp (hproperty (by decide))).1
            have hold := hvalid configName config a hget hdata'.symm
            omega
          · intro hcond
            have hall' : ∀ e ∈ (pathElement :: pathTail).dropLast, Found env config e :=
              fun e he => hall e (List.mem_of_mem_dropLast he)
            exact absurd (hobject.mpr ((hcond hall').2 hall node hfirst)) hobj

/-- There are no files. -/
def emptySystem : Environment where
  realpath _ := none
  fopen _ := none
  yaml_parser_load _ := none

def loadedFrom (files : List CString) (configData : Option ℕ) : ConfigManager where
  configs := [(ofBytes (ascii "zowe"), {
    configPath := files.map (⟨CONFIG_PATH_OMVS_FILE, ·⟩)
    parmlibMemberName := none
    configData })]
  slh := [.object []]

/-- When the overlay is gone, the data stays. -/
theorem cfgLoadConfiguration2_atomic_iff_overlay :
    let mgr := loadedFrom [ofBytes (ascii "zowe.yaml"), ofBytes (ascii "defaults.yaml")] (some 0)
    (ZCFG_MISSING_CONFIG_SOURCE ≠ ZCFG_SUCCESS → SameData (ofBytes (ascii "zowe")) mgr mgr) ↔
      ∀ config ∈ getConfig mgr (ofBytes (ascii "zowe")), LoadsAtomically emptySystem config := by
  intro mgr
  have hrun : cfgLoadConfiguration2 emptySystem (fun _ _ => none) 1 mgr (ofBytes (ascii "zowe"))
      JsonBuilder.JSON_MERGE_FLAG_CONCATENATE_ARRAYS = .ok (ZCFG_MISSING_CONFIG_SOURCE, mgr) := rfl
  refine cfgLoadConfiguration2_atomic_iff (fun name config a hget ha => ?_) hrun
  have hmem : config.configData = some 0 := by
    unfold getConfig at hget
    obtain ⟨c, hc, rfl⟩ := Option.map_eq_some_iff.mp hget
    have hin := List.mem_of_find?_eq_some hc
    rw [List.mem_singleton.mp hin]
  rw [hmem] at ha
  cases ha
  exact Nat.one_pos

/-- When the only file is gone, so is the data. -/
theorem not_cfgLoadConfiguration2_atomic :
    ¬∀ (env : Environment) (js : JavaScript) (fuel status : ℕ) (policy : BitVec 32)
      (mgr mgr' : ConfigManager) (configName : CString), mgr.DataInMemory →
      cfgLoadConfiguration2 env js fuel mgr configName policy = .ok (status, mgr') →
      status ≠ ZCFG_SUCCESS → SameData configName mgr mgr' := by
  intro hclaim
  have hsame := hclaim emptySystem (fun _ _ => none) 1 ZCFG_MISSING_CONFIG_SOURCE
    JsonBuilder.JSON_MERGE_FLAG_CONCATENATE_ARRAYS (loadedFrom [ofBytes (ascii "zowe.yaml")] (some 0))
    (loadedFrom [ofBytes (ascii "zowe.yaml")] none) (ofBytes (ascii "zowe"))
  have hdata := (hsame (fun name config a hget ha => ?_) rfl (by decide)).1
  · cases hdata
  · unfold getConfig at hget
    obtain ⟨c, hc, rfl⟩ := Option.map_eq_some_iff.mp hget
    have hin := List.mem_of_find?_eq_some hc
    rw [List.mem_singleton.mp hin] at ha
    cases ha
    exact Nat.one_pos

end Manager

end ZoweCommon
