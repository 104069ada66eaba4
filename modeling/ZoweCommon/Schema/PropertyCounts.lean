import ZoweCommon.Schema.LevelFrame
import ZoweCommon.Schema.Validator

/-! What becomes of `minProperties` and `maxProperties`. -/
namespace ZoweCommon
namespace JsonSchema

open CLibrary CString

def isCountKeyword (propertyName : CString) : Bool :=
  propertyName = ofBytes (ascii "minProperties") || propertyName = ofBytes (ascii "maxProperties")

/-- What else a schema says. -/
def withoutCounts (object : JsonObject) : JsonObject :=
  object.filter fun property => !isCountKeyword property.1

section Lookups

variable {platform : Platform} {build : Option ℕ → Json → Build ℕ} {object : JsonObject}
  {propertyName : String}

theorem lookup_withoutCounts (h : isCountKeyword (ofBytes (ascii propertyName)) = false) :
    jsonObjectGetPropertyValue (withoutCounts object) propertyName =
      jsonObjectGetPropertyValue object propertyName := by
  unfold jsonObjectGetPropertyValue Json.lookup withoutCounts
  rw [List.find?_filter]
  congr 2
  funext property
  by_cases heq : property.1 = ofBytes (ascii propertyName)
  · simp [heq, h]
  · simp [heq]

theorem lookup_count (h : isCountKeyword (ofBytes (ascii propertyName)) = true) :
    jsonObjectGetPropertyValue (withoutCounts object) propertyName = none := by
  unfold jsonObjectGetPropertyValue Json.lookup withoutCounts
  rw [Option.map_eq_none_iff, List.find?_eq_none]
  intro property hproperty heq
  have hkept := (List.mem_filter.mp hproperty).2
  rw [of_decide_eq_true heq, h] at hkept
  cases hkept

variable (h : isCountKeyword (ofBytes (ascii propertyName)) = false)
include h

theorem getString_withoutCounts (defaultValue : Option CString) :
    getString platform (withoutCounts object) propertyName defaultValue =
      getString platform object propertyName defaultValue := by
  unfold getString
  rw [lookup_withoutCounts h]

theorem getBooleanValue_withoutCounts (defaultValue : Bool) :
    getBooleanValue platform (withoutCounts object) propertyName defaultValue =
      getBooleanValue platform object propertyName defaultValue := by
  unfold getBooleanValue
  rw [lookup_withoutCounts h]

theorem getNumber_withoutCounts (defaultValue : BitVec 64) :
    getNumber platform (withoutCounts object) propertyName defaultValue =
      getNumber platform object propertyName defaultValue := by
  unfold getNumber
  rw [lookup_withoutCounts h]

theorem getIntegralValue_withoutCounts (defaultValue : BitVec 64) :
    getIntegralValue platform (withoutCounts object) propertyName defaultValue =
      getIntegralValue platform object propertyName defaultValue := by
  unfold getIntegralValue
  rw [lookup_withoutCounts h]

theorem getArrayValue_withoutCounts :
    getArrayValue platform (withoutCounts object) propertyName =
      getArrayValue platform object propertyName := by
  unfold getArrayValue
  rw [lookup_withoutCounts h]

theorem getObjectValue_withoutCounts :
    getObjectValue platform (withoutCounts object) propertyName =
      getObjectValue platform object propertyName := by
  unfold getObjectValue
  rw [lookup_withoutCounts h]

theorem getComposite_withoutCounts (parent : ℕ) :
    getComposite build (withoutCounts object) parent propertyName =
      getComposite build object parent propertyName := by
  unfold getComposite
  rw [lookup_withoutCounts h]

end Lookups

section Same

variable (platform : Platform) (build : Option ℕ → Json → Build ℕ) (object : JsonObject)
  (valueSpec : ℕ)

theorem buildProperties_withoutCounts :
    buildProperties platform build (withoutCounts object) valueSpec =
      buildProperties platform build object valueSpec := by
  unfold buildProperties
  simp -zeta (disch := decide) only [getArrayValue_withoutCounts, getObjectValue_withoutCounts,
    lookup_withoutCounts]

theorem buildCommonKeywords_withoutCounts :
    buildCommonKeywords platform build (withoutCounts object) valueSpec =
      buildCommonKeywords platform build object valueSpec := by
  unfold buildCommonKeywords getDefinitions addPatternProperties
  simp -zeta (disch := decide) only [getArrayValue_withoutCounts, getObjectValue_withoutCounts,
    getBooleanValue_withoutCounts, getComposite_withoutCounts, lookup_withoutCounts]

theorem buildArraySpec_withoutCounts :
    buildArraySpec platform build (withoutCounts object) valueSpec =
      buildArraySpec platform build object valueSpec := by
  unfold buildArraySpec
  simp -zeta (disch := decide) only [getIntegralValue_withoutCounts, getBooleanValue_withoutCounts,
    lookup_withoutCounts]

theorem buildStringSpec_withoutCounts :
    buildStringSpec platform (withoutCounts object) valueSpec =
      buildStringSpec platform object valueSpec := by
  unfold buildStringSpec
  simp -zeta (disch := decide) only [getIntegralValue_withoutCounts, getString_withoutCounts]

theorem buildNumericSpec_withoutCounts :
    buildNumericSpec platform (withoutCounts object) valueSpec =
      buildNumericSpec platform object valueSpec := by
  unfold buildNumericSpec
  simp -zeta (disch := decide) only [getBooleanValue_withoutCounts, getNumber_withoutCounts]

theorem buildOtherTypes_withoutCounts (spec : JSValueSpec) :
    buildOtherTypes platform build (withoutCounts object) spec valueSpec =
      buildOtherTypes platform build object spec valueSpec := by
  unfold buildOtherTypes
  rw [buildArraySpec_withoutCounts, buildStringSpec_withoutCounts, buildNumericSpec_withoutCounts]

end Same

/-! The level before its keywords -/

def buildHeader (platform : Platform) (parent : Option ℕ) (object : JsonObject) : Build ℕ := do
  let typeArray ← getTypeNames platform object
  let _ ← getString platform object "description" none
  let _ ← getString platform object "title" none
  let id ← getID platform object
  let valueSpec ← makeValueSpec platform parent id typeArray
  let anchor ← getString platform object "$anchor" none
  setSpec valueSpec fun spec => { spec with ref := none, anchor := anchor }
  match anchor with
  | some anchor => indexByAnchor (valueSpec + 1) valueSpec anchor
  | none => pure ()
  return valueSpec

theorem build_eq {platform : Platform} {fuel : ℕ} {parent : Option ℕ} {object : JsonObject}
    (hnoRef : jsonObjectGetPropertyValue object "$ref" = none) :
    build platform (fuel + 1) parent (.object object) = (do
      let valueSpec ← buildHeader platform parent object
      buildKeywords platform (build platform fuel) object valueSpec
      return valueSpec) := by
  have href : getString platform object "$ref" none = pure none := by
    unfold getString
    rw [hnoRef]
  rw [build]
  unfold buildHeader
  simp only [bind_assoc, href, pure_bind]
  refine bind_congr fun typeArray => bind_congr fun _ => bind_congr fun _ => bind_congr fun id =>
    bind_congr fun valueSpec => bind_congr fun anchor => bind_congr fun _ => ?_
  cases anchor with
  | none => rfl
  | some anchor =>
    simp only [bind_assoc, pure_bind]
    rfl

theorem buildHeader_withoutCounts (platform : Platform) (parent : Option ℕ) (object : JsonObject) :
    buildHeader platform parent (withoutCounts object) = buildHeader platform parent object := by
  unfold buildHeader getTypeNames getID
  simp -zeta (disch := decide) only [getString_withoutCounts, lookup_withoutCounts]

theorem run_bind_eq_ok {α β : Type} {m : Build α} {f : α → Build β} {specs : List JSValueSpec}
    {r : β × List JSValueSpec} : (m >>= f).run specs = .ok r ↔
      ∃ a specs', m.run specs = .ok (a, specs') ∧ (f a).run specs' = .ok r := by
  rw [StateT.run_bind]
  cases m.run specs with
  | error e =>
    constructor
    · intro h
      cases h
    · rintro ⟨a, specs', hrun, -⟩
      cases hrun
  | ok q =>
    constructor
    · intro h
      exact ⟨q.1, q.2, rfl, h⟩
    · rintro ⟨a, specs', hrun, h⟩
      cases hrun
      exact h

/-- A level that has no flags yet. -/
def Flagless (valueSpec : ℕ) (specs : List JSValueSpec) : Prop :=
  ∃ spec, specs[valueSpec]? = some spec ∧ spec.validatorFlags = 0

section Flagless

open StateFrame (Commutes)

variable {valueSpec : ℕ}

theorem flagless_setSpec {spec : ℕ} {f : JSValueSpec → JSValueSpec}
    (h : ∀ s, (f s).validatorFlags = s.validatorFlags) :
    Commutes id (Flagless valueSpec) (setSpec spec f) := by
  apply Commutes.update
  · rintro specs ⟨level, hlevel, hflags⟩
    by_cases heq : spec = valueSpec
    · refine ⟨f level, ?_, (h level).trans hflags⟩
      rw [heq, List.getElem?_modify_eq, hlevel]
      rfl
    · refine ⟨level, ?_, hflags⟩
      rw [List.getElem?_modify_ne _ _ heq, hlevel]
  · exact fun _ _ => rfl

theorem flagless_addTypes (spec : ℕ) (typeNameArray : List CString) :
    Commutes id (Flagless valueSpec) (typeNameArray.forM fun name => do
      let type ← getJSTypeForName name
      setSpec spec fun valueSpec => valueSpec.addType type) := by
  have hname (name : CString) : Commutes id (Flagless valueSpec) (getJSTypeForName name) := by
    unfold getJSTypeForName
    repeat' apply Commutes.ite (.pure _)
    exact .throw _
  exact Commutes.forM fun name => (hname name).bind fun type => flagless_setSpec fun _ => rfl

theorem flagless_indexByAnchor (fuel spec : ℕ) (anchor : CString) :
    Commutes id (Flagless valueSpec) (indexByAnchor fuel spec anchor) := by
  refine Commutes.read (fun _ _ => rfl) fun specs _ => ?_
  split
  · exact Commutes.throw _
  · exact flagless_setSpec fun _ => rfl

theorem flagless_makeValueSpec {platform : Platform} {parent : Option ℕ} {id : Option CString}
    {typeNameArray : List CString} {specs specs' : List JSValueSpec} {valueSpec : ℕ}
    (h : (makeValueSpec platform parent id typeNameArray).run specs = .ok (valueSpec, specs')) :
    Flagless valueSpec specs' := by
  rw [makeValueSpec_eq] at h
  obtain ⟨specs₀, specs₀', hget, h⟩ := run_bind_eq_ok.mp h
  cases hget
  unfold makeLevel at h
  obtain ⟨u, specs₁, hmodify, h⟩ := run_bind_eq_ok.mp h
  obtain ⟨u', specs₂, htypes, h⟩ := run_bind_eq_ok.mp h
  cases h
  refine (flagless_addTypes specs.length typeNameArray).keeps ?_ htypes
  cases hmodify
  refine ⟨_, List.getElem?_concat_length, rfl⟩

theorem flagless_getString {platform : Platform} {object : JsonObject} {propertyName : String}
    {defaultValue : Option CString} :
    Commutes id (Flagless valueSpec) (getString platform object propertyName defaultValue) := by
  unfold getString
  split
  · exact .pure _
  · exact .pure _
  · exact .throw _

/-- The new level has no flags yet. -/
theorem flagless_buildHeader {platform : Platform} {parent : Option ℕ} {object : JsonObject}
    {specs specs' : List JSValueSpec}
    (h : (buildHeader platform parent object).run specs = .ok (valueSpec, specs')) :
    Flagless valueSpec specs' := by
  unfold buildHeader at h
  obtain ⟨typeArray, s₁, -, h⟩ := run_bind_eq_ok.mp h
  obtain ⟨description, s₂, -, h⟩ := run_bind_eq_ok.mp h
  obtain ⟨title, s₃, -, h⟩ := run_bind_eq_ok.mp h
  obtain ⟨id, s₄, -, h⟩ := run_bind_eq_ok.mp h
  obtain ⟨made, s₅, hmade, h⟩ := run_bind_eq_ok.mp h
  obtain ⟨anchor, s₆, hanchor, h⟩ := run_bind_eq_ok.mp h
  obtain ⟨u, s₇, hnames, h⟩ := run_bind_eq_ok.mp h
  have h₆ : Flagless made s₆ := flagless_getString.keeps (flagless_makeValueSpec hmade) hanchor
  have h₇ : Flagless made s₇ := by
    refine (flagless_setSpec ?_).keeps h₆ hnames
    exact fun _ => rfl
  cases anchor with
  | none =>
    cases h
    exact h₇
  | some anchor =>
    obtain ⟨u', s₈, hindex, h⟩ := run_bind_eq_ok.mp h
    cases h
    exact (flagless_indexByAnchor _ _ _).keeps h₇ hindex

end Flagless

/-! The counts of a level -/

def countsOf (spec : JSValueSpec) : Counts where
  typeMask := spec.typeMask
  minProperties := spec.minProperties
  maxProperties := spec.maxProperties
  flags := spec.validatorFlags &&& countFlags

theorem put_countsOf (spec : JSValueSpec) : (countsOf spec).put spec = spec := by
  have hflags : spec.validatorFlags &&& ~~~countFlags ||| spec.validatorFlags &&& countFlags =
      spec.validatorFlags := by
    rw [← BitVec.and_or_distrib_left, BitVec.or_comm, BitVec.or_not_self, BitVec.and_allOnes]
  unfold Counts.put countsOf
  dsimp only
  rw [hflags]

theorem countsOf_put {c : Counts} (h : c.flags &&& countFlags = c.flags) (spec : JSValueSpec) :
    countsOf (c.put spec) = c := by
  have hflags : (spec.validatorFlags &&& ~~~countFlags ||| c.flags) &&& countFlags = c.flags := by
    rw [BitVec.and_or_distrib_right, h, BitVec.and_assoc, BitVec.and_comm (~~~countFlags),
      BitVec.and_not_self]
    simp
  unfold countsOf Counts.put
  dsimp only
  rw [hflags]

theorem modify_eq_modify {specs : List JSValueSpec} {i : ℕ} {spec : JSValueSpec}
    {f g : JSValueSpec → JSValueSpec} (hspec : specs[i]? = some spec) (h : f spec = g spec) :
    specs.modify i f = specs.modify i g := by
  apply List.ext_getElem?
  intro j
  rw [List.getElem?_modify, List.getElem?_modify]
  by_cases hij : i = j
  · rw [← hij, hspec]
    simp [h]
  · simp [hij]

/-- The counts of a level stay, whatever else is built. -/
theorem countsOf_run {α : Type} {m : Build α} {i : ℕ} (hm : ∀ c, Independent i c m)
    {specs specs' : List JSValueSpec} {a : α} (hrun : m.run specs = .ok (a, specs'))
    {spec : JSValueSpec} (hspec : specs[i]? = some spec) :
    ∃ spec', specs'[i]? = some spec' ∧ countsOf spec' = countsOf spec := by
  have hi : i < specs.length := (List.getElem?_eq_some_iff.mp hspec).1
  have hsame : specs.modify i (countsOf spec).put = specs := by
    rw [modify_eq_modify (g := id) hspec (put_countsOf spec), List.modify_id]
  have hfixed := (hm (countsOf spec)).run hi
  have hi' : i < specs'.length := (hm (countsOf spec)).keeps hi hrun
  rw [hsame, hrun] at hfixed
  have hspecs' : specs' = specs'.modify i (countsOf spec).put :=
    (Prod.mk.inj (Except.ok.inj hfixed)).2
  obtain ⟨spec', hspec'⟩ : ∃ spec', specs'[i]? = some spec' := ⟨_, List.getElem?_eq_getElem hi'⟩
  refine ⟨spec', hspec', ?_⟩
  have hput : some spec' = some ((countsOf spec).put spec') := by
    rw [← hspec']
    nth_rewrite 1 [hspecs']
    rw [List.getElem?_modify_eq, hspec']
    rfl
  rw [Option.some_inj.mp hput, countsOf_put]
  unfold countsOf
  dsimp only
  rw [BitVec.and_assoc, BitVec.and_self]

/-! The keywords of the schema -/

/-- The number that a keyword is given, in either of the types for integers. -/
def keywordInteger (object : JsonObject) (propertyName : String) : Option ℤ :=
  (jsonObjectGetPropertyValue object propertyName).bind Json.integer?

/-- A schema for objects, whose counts are integers, and which says nothing else that is wrong. -/
structure ObjectSchema (platform : Platform) (fuel : ℕ) (specs : List JSValueSpec)
    (object : JsonObject) : Prop where
  noRef : jsonObjectGetPropertyValue object "$ref" = none
  counts : ∀ propertyName ∈ ["minProperties", "maxProperties"], ∀ value,
    jsonObjectGetPropertyValue object propertyName = some value →
      ∃ z, value.integer? = some z ∧ 0 ≤ z
  built : ∃ spec specs' valueSpec,
    jsonBuildSchema platform fuel specs (.object (withoutCounts object)) = .ok (.ok (spec, specs')) ∧
      specs'[spec]? = some valueSpec ∧ valueSpec.permits JSTYPE_OBJECT = true

/-- The schema is accepted, and an object with `n` properties passes if it should. -/
def CountsExact (platform : Platform) (fuel : ℕ) (specs : List JSValueSpec) (object : JsonObject)
    (n : ℕ) : Prop :=
  ∃ spec specs' valueSpec,
    jsonBuildSchema platform fuel specs (.object object) = .ok (.ok (spec, specs')) ∧
      specs'[spec]? = some valueSpec ∧
      ∀ st, checkPropertyCount valueSpec st n = .ok [] ↔
        (∀ a, keywordInteger object "minProperties" = some a → a ≤ n) ∧
          ∀ b, keywordInteger object "maxProperties" = some b → n ≤ b

def IsInt64Keyword (object : JsonObject) (propertyName : String) : Prop :=
  ∀ n, jsonObjectGetPropertyValue object propertyName ≠ some (.scalar (.number n))

/-- Where the counts do what they say. A minimum alone is not looked at, a maximum alone stops the
schema, and of both the minimum is taken for the maximum too. -/
def CountsHold (object : JsonObject) (n : ℕ) : Prop :=
  IsInt64Keyword object "minProperties" ∧ IsInt64Keyword object "maxProperties" ∧
    match keywordInteger object "minProperties", keywordInteger object "maxProperties" with
    | none, none => True
    | some a, none => a ≤ n
    | none, some _ => False
    | some a, some b => n < a ∨ n = a ∧ a ≤ b ∨ a < n ∧ b < n

/-- The count passes where neither check fires. -/
theorem checkPropertyCount_eq_ok_iff {valueSpec : JSValueSpec} {st : ValidatorState} {n : ℕ} :
    checkPropertyCount valueSpec st n = .ok [] ↔
      (valueSpec.hasFlag JS_VALIDATOR_MAX_PROPS = true → (n : ℤ) ≤ valueSpec.minProperties.toInt) ∧
        (valueSpec.hasFlag JS_VALIDATOR_MIN_PROPS = true →
          valueSpec.minProperties.toInt ≤ (n : ℤ)) := by
  have hquiet : ((valueSpec.hasFlag JS_VALIDATOR_MAX_PROPS = true →
        (n : ℤ) ≤ valueSpec.minProperties.toInt) ∧
      (valueSpec.hasFlag JS_VALIDATOR_MIN_PROPS = true →
        valueSpec.minProperties.toInt ≤ (n : ℤ))) ↔
      (valueSpec.hasFlag JS_VALIDATOR_MAX_PROPS &&
          decide (valueSpec.minProperties.toInt < n)) = false ∧
        (valueSpec.hasFlag JS_VALIDATOR_MIN_PROPS &&
          decide (n < valueSpec.minProperties.toInt)) = false := by
    simp only [Bool.and_eq_false_imp, decide_eq_false_iff_not, not_lt]
  rw [hquiet]
  unfold checkPropertyCount
  dsimp only
  generalize (valueSpec.hasFlag JS_VALIDATOR_MAX_PROPS &&
    decide (valueSpec.minProperties.toInt < n)) = tooMany
  generalize (valueSpec.hasFlag JS_VALIDATOR_MIN_PROPS &&
    decide (n < valueSpec.minProperties.toInt)) = tooFew
  cases tooMany with
  | true =>
    cases validatorAccessPath st.accessPath with
    | error fault => simp
    | ok path =>
      cases tooFew with
      | true => simp
      | false => simp
  | false =>
    cases tooFew with
    | true =>
      cases validatorAccessPath st.accessPath with
      | error fault => simp
      | ok path => simp
    | false => simp

theorem getIntegralValue_count (platform : Platform) {object : JsonObject} {propertyName : String}
    (hint64 : IsInt64Keyword object propertyName)
    (hinteger : ∀ value, jsonObjectGetPropertyValue object propertyName = some value →
      ∃ z, value.integer? = some z ∧ 0 ≤ z) :
    (keywordInteger object propertyName = none ∧
        getIntegralValue platform object propertyName MISSING_VALIDATOR = pure MISSING_VALIDATOR) ∨
      ∃ n : BitVec 64, keywordInteger object propertyName = some n.toInt ∧ 0 ≤ n.toInt ∧
        getIntegralValue platform object propertyName MISSING_VALIDATOR = pure n := by
  unfold keywordInteger getIntegralValue
  cases hvalue : jsonObjectGetPropertyValue object propertyName with
  | none =>
    left
    exact ⟨rfl, rfl⟩
  | some value =>
    obtain ⟨z, hz, hnonneg⟩ := hinteger value hvalue
    right
    cases value with
    | object ps => cases hz
    | array es => cases hz
    | scalar s =>
      cases s with
      | number n => exact absurd hvalue (hint64 n)
      | int64 n =>
        cases hz
        exact ⟨n, rfl, hnonneg, rfl⟩
      | double bits => cases hz
      | string s => cases hz
      | boolean b => cases hz
      | null => cases hz

theorem getIntegralValue_number (platform : Platform) {object : JsonObject} {propertyName : String}
    (h : ¬ IsInt64Keyword object propertyName) (defaultValue : BitVec 64) :
    ∃ text, getIntegralValue platform object propertyName defaultValue = schemaThrow 12 text := by
  unfold IsInt64Keyword at h
  push Not at h
  obtain ⟨n, hn⟩ := h
  unfold getIntegralValue
  rw [hn]
  exact ⟨_, rfl⟩

section Counts

variable {platform : Platform} {object : JsonObject} {valueSpec : ℕ} {specs : List JSValueSpec}
  {minProperties maxProperties : BitVec 64}
  (hmin : getIntegralValue platform object "minProperties" MISSING_VALIDATOR = pure minProperties)
include hmin

/-- Without a maximum the minimum is only kept. -/
theorem run_counts_noMax
    (hmax : getIntegralValue platform object "maxProperties" MISSING_VALIDATOR =
      pure MISSING_VALIDATOR) :
    (buildPropertyCounts platform object valueSpec).run specs =
      .ok ((), specs.modify valueSpec fun spec =>
        { spec with maxProperties := MISSING_VALIDATOR, minProperties := minProperties }) := by
  unfold buildPropertyCounts
  rw [hmax, hmin]
  rfl

variable
  (hmax : getIntegralValue platform object "maxProperties" MISSING_VALIDATOR = pure maxProperties)
  (hnonneg : 0 ≤ maxProperties.toInt)
include hmax hnonneg

theorem run_counts_max :
    (buildPropertyCounts platform object valueSpec).run specs =
      if minProperties.toInt < 0 then .error (.schemaThrow 12 (snprintf ERROR_MAX
        [ascii "minProperties", ascii " must be non-negative"].flatten))
      else .ok ((), specs.modify valueSpec fun spec =>
        { spec with
          maxProperties := maxProperties
          minProperties := minProperties
          validatorFlags :=
            spec.validatorFlags ||| JS_VALIDATOR_MAX_PROPS ||| JS_VALIDATOR_MIN_PROPS }) := by
  have hpresent : maxProperties ≠ MISSING_VALIDATOR := by
    rintro rfl
    exact absurd hnonneg (by decide)
  have hcheck : checkNonNegative maxProperties "maxProperties" = pure () := if_neg hnonneg.not_gt
  unfold buildPropertyCounts
  rw [hmax, hmin]
  simp only [pure_bind]
  rw [if_pos hpresent, hcheck]
  unfold checkNonNegative
  split_ifs with hneg
  · rfl
  · simp only [pure_bind]
    show Except.ok ((), ((specs.modify valueSpec _).modify valueSpec _).modify valueSpec _) = _
    rw [List.modify_modify_eq, List.modify_modify_eq]
    rfl

end Counts

def buildAfterCounts (platform : Platform) (build : Option ℕ → Json → Build ℕ) (object : JsonObject)
    (spec : JSValueSpec) (valueSpec : ℕ) : Build Unit := do
  buildProperties platform build object valueSpec
  buildOtherTypes platform build object spec valueSpec

/-- What is left when the counts are taken out of a schema. -/
structure Rest (platform : Platform) (fuel : ℕ) (specs : List JSValueSpec) (object : JsonObject)
    (valueSpec : ℕ) (specs' : List JSValueSpec) (spec : JSValueSpec) (after : Build Unit) : Prop where
  level : specs'[valueSpec]? = some spec
  flags : spec.validatorFlags &&& countFlags = 0
  independent : ∀ c, Independent valueSpec c after
  accepted : ∃ specs'', after.run (specs'.modify valueSpec fun spec =>
    { spec with maxProperties := MISSING_VALIDATOR, minProperties := MISSING_VALIDATOR }) =
      .ok ((), specs'')
  run : (build platform fuel none (.object object)).run specs =
    ((buildPropertyCounts platform object valueSpec >>= fun _ => after).run specs').map
      fun r : Unit × List JSValueSpec => (valueSpec, r.2)

theorem getIntegralValue_absent {platform : Platform} {object : JsonObject} {propertyName : String}
    (h : isCountKeyword (ofBytes (ascii propertyName)) = true) (defaultValue : BitVec 64) :
    getIntegralValue platform (withoutCounts object) propertyName defaultValue =
      pure defaultValue := by
  unfold getIntegralValue
  rw [lookup_count h]

theorem run_getSpec {valueSpec : ℕ} {specs : List JSValueSpec} {spec : JSValueSpec}
    (h : specs[valueSpec]? = some spec) : (getSpec valueSpec).run specs = .ok (spec, specs) := by
  unfold getSpec
  rw [StateT.run_bind, StateT.run_get, pure_bind, h]
  rfl

theorem run_bind_of_ok {α β : Type} {m : Build α} {f : α → Build β}
    {specs specs' : List JSValueSpec} {a : α} (h : m.run specs = .ok (a, specs')) :
    (m >>= f).run specs = (f a).run specs' := by
  rw [StateT.run_bind, h]
  rfl

theorem run_then_pure {α β : Type} (m : Build α) (b : β) (specs : List JSValueSpec) :
    (m >>= fun _ => pure b).run specs =
      (m.run specs).map fun r : α × List JSValueSpec => (b, r.2) := by
  rw [StateT.run_bind]
  cases m.run specs with
  | error stop => rfl
  | ok r => rfl

theorem ObjectSchema.rest {platform : Platform} {fuel : ℕ} {specs : List JSValueSpec}
    {object : JsonObject} (h : ObjectSchema platform fuel specs object) :
    ∃ valueSpec specs' spec after, Rest platform fuel specs object valueSpec specs' spec after := by
  obtain ⟨valueSpec, specs', level, hbuilt, hlevel, hpermits⟩ := h.built
  have hbuild : (build platform fuel none (.object (withoutCounts object))).run specs =
      .ok (valueSpec, specs') := by
    unfold jsonBuildSchema at hbuilt
    cases hrun : (build platform fuel none (.object (withoutCounts object))).run specs with
    | ok schema =>
      rw [hrun] at hbuilt
      cases hbuilt
      rfl
    | error stop =>
      rw [hrun] at hbuilt
      cases stop with
      | fault f => cases hbuilt
      | schemaThrow errorCode errorMessage => cases hbuilt
  cases fuel with
  | zero => cases hbuild
  | succ fuel =>
    have hnoRef : jsonObjectGetPropertyValue (withoutCounts object) "$ref" = none := by
      rw [lookup_withoutCounts (by decide), h.noRef]
    rw [build_eq hnoRef, buildHeader_withoutCounts] at hbuild
    obtain ⟨made, s₁, hheader, hbuild⟩ := run_bind_eq_ok.mp hbuild
    obtain ⟨u, s₂, hkeywords, hbuild⟩ := run_bind_eq_ok.mp hbuild
    cases hbuild
    rw [buildKeywords_eq, buildCommonKeywords_withoutCounts] at hkeywords
    obtain ⟨u, s₃, hcommon, hkeywords⟩ := run_bind_eq_ok.mp hkeywords
    obtain ⟨first, hfirst, hflags⟩ := flagless_buildHeader hheader
    have hbuild (c : Counts) := independent_build (i := valueSpec) (c := c) platform fuel
    have hcommon' (c : Counts) := independent_buildCommonKeywords platform (hbuild c) object valueSpec
    obtain ⟨spec, hspec, hcounts⟩ := countsOf_run hcommon' hcommon hfirst
    have hother (c : Counts) : Independent valueSpec c
        (buildOtherTypes platform (build platform fuel) object spec valueSpec) :=
      independent_buildOtherTypes platform (hbuild c) object spec valueSpec
    rw [run_bind_of_ok (run_getSpec hspec)] at hkeywords
    have hpermitted : spec.permits JSTYPE_OBJECT = true := by
      by_contra hnot
      rw [if_neg hnot, buildOtherTypes_withoutCounts] at hkeywords
      obtain ⟨level', hlevel', hsame⟩ := countsOf_run hother hkeywords hspec
      have heq : level' = level := by
        rw [hlevel'] at hlevel
        exact Option.some_inj.mp hlevel
      have hmask : level.typeMask = spec.typeMask := by
        rw [← heq]
        exact congrArg Counts.typeMask hsame
      unfold JSValueSpec.permits at hpermits hnot
      rw [hmask] at hpermits
      exact hnot hpermits
    rw [if_pos hpermitted, buildObjectSpec_eq, buildProperties_withoutCounts,
      buildOtherTypes_withoutCounts] at hkeywords
    refine ⟨valueSpec, s₃, spec, buildAfterCounts platform (build platform fuel) object spec valueSpec,
      hspec, ?_, ?_, ?_, ?_⟩
    · have hflags' : spec.validatorFlags &&& countFlags = first.validatorFlags &&& countFlags :=
        congrArg Counts.flags hcounts
      rw [hflags', hflags]
      rfl
    · exact fun c => (independent_buildProperties platform (hbuild c) object valueSpec).bind
        fun _ => hother c
    · rw [bind_assoc, run_bind_of_ok (run_counts_noMax (getIntegralValue_absent (by decide) _)
        (getIntegralValue_absent (by decide) _))] at hkeywords
      exact ⟨_, hkeywords⟩
    · rw [build_eq h.noRef, run_bind_of_ok hheader, buildKeywords_eq, bind_assoc,
        run_bind_of_ok hcommon, bind_assoc, run_bind_of_ok (run_getSpec hspec), if_pos hpermitted,
        buildObjectSpec_eq, ← run_then_pure]
      unfold buildAfterCounts
      simp only [bind_assoc]

theorem and_flag {x flag : BitVec 64} (h : countFlags &&& flag = flag) :
    x &&& countFlags &&& flag = x &&& flag := by
  rw [BitVec.and_assoc, h]

/-- The level that comes of the counts that were read. -/
theorem Rest.counts_iff {platform : Platform} {fuel : ℕ} {specs : List JSValueSpec}
    {object : JsonObject} {valueSpec : ℕ} {specs' : List JSValueSpec} {spec : JSValueSpec}
    {after : Build Unit} (h : Rest platform fuel specs object valueSpec specs' spec after)
    {c : Counts} (htypes : c.typeMask = spec.typeMask) (hflags : c.flags &&& countFlags = c.flags)
    (hrun : (buildPropertyCounts platform object valueSpec).run specs' =
      .ok ((), specs'.modify valueSpec fun spec =>
        { spec with
          maxProperties := c.maxProperties
          minProperties := c.minProperties
          validatorFlags := spec.validatorFlags ||| c.flags })) (n : ℕ) :
    CountsExact platform fuel specs object n ↔
      ((c.flags &&& JS_VALIDATOR_MAX_PROPS ≠ 0 → (n : ℤ) ≤ c.minProperties.toInt) ∧
          (c.flags &&& JS_VALIDATOR_MIN_PROPS ≠ 0 → c.minProperties.toInt ≤ (n : ℤ)) ↔
        (∀ a, keywordInteger object "minProperties" = some a → a ≤ n) ∧
          ∀ b, keywordInteger object "maxProperties" = some b → n ≤ b) := by
  obtain ⟨specs'', hafter⟩ := h.accepted
  have hi : valueSpec < specs'.length := (List.getElem?_eq_some_iff.mp h.level).1
  have hother : spec.validatorFlags &&& ~~~countFlags = spec.validatorFlags := by
    have hsplit := congrArg JSValueSpec.validatorFlags (put_countsOf spec)
    have hnone : (countsOf spec).flags = 0 := h.flags
    unfold Counts.put at hsplit
    rw [hnone] at hsplit
    simpa using hsplit
  let clear : JSValueSpec → JSValueSpec := fun spec =>
    { spec with maxProperties := MISSING_VALIDATOR, minProperties := MISSING_VALIDATOR }
  have hmodified : (specs'.modify valueSpec fun spec =>
        { spec with
          maxProperties := c.maxProperties
          minProperties := c.minProperties
          validatorFlags := spec.validatorFlags ||| c.flags }) =
      (specs'.modify valueSpec clear).modify valueSpec c.put := by
    rw [List.modify_modify_eq]
    apply modify_eq_modify h.level
    show _ = c.put (clear spec)
    unfold Counts.put
    dsimp only [clear]
    rw [hother, htypes]
  have hclear : valueSpec < (specs'.modify valueSpec clear).length := by
    rw [List.length_modify]
    exact hi
  have hbuild : jsonBuildSchema platform fuel specs (.object object) =
      .ok (.ok (valueSpec, specs''.modify valueSpec c.put)) := by
    have hput := (h.independent c).run hclear
    rw [hafter] at hput
    unfold jsonBuildSchema
    rw [h.run, run_bind_of_ok hrun, hmodified, hput]
    rfl
  obtain ⟨level, hlevel⟩ : ∃ level, specs''[valueSpec]? = some level :=
    ⟨_, List.getElem?_eq_getElem ((h.independent c).keeps hclear hafter)⟩
  have hput : (specs''.modify valueSpec c.put)[valueSpec]? = some (c.put level) := by
    rw [List.getElem?_modify_eq, hlevel]
    rfl
  have hcounts := countsOf_put hflags level
  have hflag (flag : BitVec 64) (hflag : countFlags &&& flag = flag) :
      (c.put level).hasFlag flag = true ↔ c.flags &&& flag ≠ 0 := by
    have hsame : (c.put level).validatorFlags &&& countFlags = c.flags :=
      congrArg Counts.flags hcounts
    unfold JSValueSpec.hasFlag
    rw [← and_flag hflag, hsame]
    exact decide_eq_true_iff
  have hcheck (st : ValidatorState) : checkPropertyCount (c.put level) st n = .ok [] ↔
      (c.flags &&& JS_VALIDATOR_MAX_PROPS ≠ 0 → (n : ℤ) ≤ c.minProperties.toInt) ∧
        (c.flags &&& JS_VALIDATOR_MIN_PROPS ≠ 0 → c.minProperties.toInt ≤ (n : ℤ)) := by
    rw [checkPropertyCount_eq_ok_iff, hflag _ (by decide), hflag _ (by decide)]
    rfl
  constructor
  · rintro ⟨made, specs₀, level₀, hbuild₀, hlevel₀, hexact⟩
    rw [hbuild] at hbuild₀
    cases hbuild₀
    rw [hput] at hlevel₀
    cases hlevel₀
    rw [← hcheck ⟨[], []⟩]
    exact hexact _
  · intro hexact
    exact ⟨_, _, _, hbuild, hput, fun st => (hcheck st).trans hexact⟩

theorem Rest.not_countsExact {platform : Platform} {fuel : ℕ} {specs : List JSValueSpec}
    {object : JsonObject} {valueSpec : ℕ} {specs' : List JSValueSpec} {spec : JSValueSpec}
    {after : Build Unit} (h : Rest platform fuel specs object valueSpec specs' spec after)
    {errorCode : ℕ} {errorMessage : List Byte}
    (hrun : (buildPropertyCounts platform object valueSpec).run specs' =
      .error (.schemaThrow errorCode errorMessage)) (n : ℕ) :
    ¬ CountsExact platform fuel specs object n := by
  rintro ⟨made, specs₀, level₀, hbuild, -⟩
  unfold jsonBuildSchema at hbuild
  rw [h.run, StateT.run_bind, hrun] at hbuild
  cases hbuild

section Keywords

variable {platform : Platform} {object : JsonObject} {valueSpec : ℕ} {specs : List JSValueSpec}

theorem run_counts_number (platform : Platform) (valueSpec : ℕ) (specs : List JSValueSpec)
    (hcounts : ∀ propertyName ∈ ["minProperties", "maxProperties"], ∀ value,
      jsonObjectGetPropertyValue object propertyName = some value →
        ∃ z, value.integer? = some z ∧ 0 ≤ z)
    (h : ¬ (IsInt64Keyword object "minProperties" ∧ IsInt64Keyword object "maxProperties")) :
    ∃ errorMessage, (buildPropertyCounts platform object valueSpec).run specs =
      .error (.schemaThrow 12 errorMessage) := by
  unfold buildPropertyCounts
  by_cases hmax : IsInt64Keyword object "maxProperties"
  · have hmin : ¬ IsInt64Keyword object "minProperties" := fun hmin => h ⟨hmin, hmax⟩
    obtain ⟨text, htext⟩ := getIntegralValue_number platform hmin MISSING_VALIDATOR
    rcases getIntegralValue_count platform hmax (hcounts _ (by decide)) with
      ⟨-, hread⟩ | ⟨b, -, -, hread⟩
    · rw [hread, htext]
      exact ⟨_, rfl⟩
    · rw [hread, htext]
      exact ⟨_, rfl⟩
  · obtain ⟨text, htext⟩ := getIntegralValue_number platform hmax MISSING_VALIDATOR
    rw [htext]
    exact ⟨_, rfl⟩

end Keywords

namespace Rest

variable {platform : Platform} {fuel : ℕ} {specs : List JSValueSpec} {object : JsonObject}
  {valueSpec n : ℕ} {specs' : List JSValueSpec} {spec : JSValueSpec} {after : Build Unit}
  {a b : BitVec 64} (h : Rest platform fuel specs object valueSpec specs' spec after)
  (hmin : getIntegralValue platform object "minProperties" MISSING_VALIDATOR = pure a)
include h hmin

theorem countsExact_noMax
    (hmax : getIntegralValue platform object "maxProperties" MISSING_VALIDATOR =
      pure MISSING_VALIDATOR) :
    CountsExact platform fuel specs object n ↔
      (∀ a, keywordInteger object "minProperties" = some a → a ≤ n) ∧
        ∀ b, keywordInteger object "maxProperties" = some b → n ≤ b := by
  rw [h.counts_iff (c := ⟨spec.typeMask, a, MISSING_VALIDATOR, 0⟩) rfl (BitVec.zero_and)]
  · simp
  · rw [run_counts_noMax hmin hmax]
    simp

theorem countsExact_max
    (hmax : getIntegralValue platform object "maxProperties" MISSING_VALIDATOR = pure b)
    (hb : 0 ≤ b.toInt) (ha : 0 ≤ a.toInt) :
    CountsExact platform fuel specs object n ↔
      ((n : ℤ) ≤ a.toInt ∧ a.toInt ≤ n ↔
        (∀ a, keywordInteger object "minProperties" = some a → a ≤ n) ∧
          ∀ b, keywordInteger object "maxProperties" = some b → n ≤ b) := by
  rw [h.counts_iff (c := ⟨spec.typeMask, a, b, countFlags⟩) rfl (BitVec.and_self)]
  · have hflagMax : countFlags &&& JS_VALIDATOR_MAX_PROPS ≠ 0 := by decide
    have hflagMin : countFlags &&& JS_VALIDATOR_MIN_PROPS ≠ 0 := by decide
    simp only [hflagMax, hflagMin, ne_eq, not_false_eq_true, true_implies]
  · rw [run_counts_max hmin hmax hb, if_neg ha.not_gt]
    simp only [BitVec.or_assoc]
    rfl

end Rest

/-- A schema does what its counts say only if they ask for one number, or for nothing that the
number of properties could break. -/
theorem countsExact_iff {platform : Platform} {fuel : ℕ} {specs : List JSValueSpec}
    {object : JsonObject} (h : ObjectSchema platform fuel specs object) (n : ℕ) :
    CountsExact platform fuel specs object n ↔ CountsHold object n := by
  obtain ⟨valueSpec, specs', spec, after, hrest⟩ := h.rest
  unfold CountsHold
  by_cases hint64 : IsInt64Keyword object "minProperties" ∧ IsInt64Keyword object "maxProperties"
  · obtain ⟨hmin, hmax⟩ := hint64
    rcases getIntegralValue_count platform hmin (h.counts _ (by decide)) with
      ⟨ha, haRead⟩ | ⟨a, ha, hanonneg, haRead⟩
    · rcases getIntegralValue_count platform hmax (h.counts _ (by decide)) with
        ⟨hb, hbRead⟩ | ⟨b, hb, hbnonneg, hbRead⟩
      · rw [hrest.countsExact_noMax haRead hbRead, ha, hb]
        simp [hmin, hmax]
      · have hrun := @run_counts_max _ _ valueSpec specs' _ _ haRead hbRead hbnonneg
        rw [if_pos (by decide)] at hrun
        rw [ha, hb]
        constructor
        · exact fun hexact => absurd hexact (hrest.not_countsExact hrun n)
        · exact fun hhold => absurd hhold.2.2 id
    · rcases getIntegralValue_count platform hmax (h.counts _ (by decide)) with
        ⟨hb, hbRead⟩ | ⟨b, hb, hbnonneg, hbRead⟩
      · rw [hrest.countsExact_noMax haRead hbRead, ha, hb]
        simp [hmin, hmax]
      · rw [hrest.countsExact_max haRead hbRead hbnonneg hanonneg, ha, hb]
        simp only [Option.some.injEq, forall_eq', hmin, hmax, true_and]
        omega
  · obtain ⟨errorMessage, hrun⟩ := run_counts_number platform valueSpec specs' h.counts hint64
    constructor
    · exact fun hexact => absurd hexact (hrest.not_countsExact hrun n)
    · exact fun hhold => absurd ⟨hhold.1, hhold.2.1⟩ hint64

/-- A platform on which no pattern compiles. -/
def noPatterns : Platform where
  regexComp := fun _ => false
  regexExec := fun _ _ => none
  address := fun place => BitVec.ofNat 64 (place.foldl (fun hash i => 31 * hash + i + 1) 8)
  sameUnsetBytes := fun _ _ _ => true
  valueAsText := fun _ => []

def keyword (propertyName : String) (value : JsonScalar) : CString × Json :=
  (ofBytes (ascii propertyName), .scalar value)

def objectSchema (keywords : JsonObject) : JsonObject :=
  keyword "type" (.string (ofBytes (ascii "object"))) :: keywords

theorem countsExact_iff_both :
    CountsExact noPatterns 1 []
        (objectSchema [keyword "minProperties" (.int64 1), keyword "maxProperties" (.int64 3)]) 5 ↔
      CountsHold
        (objectSchema [keyword "minProperties" (.int64 1), keyword "maxProperties" (.int64 3)]) 5 := by
  refine countsExact_iff ⟨rfl, ?_, _, _, _, rfl, rfl, rfl⟩ 5
  intro propertyName hname value hvalue
  rcases List.mem_pair.mp hname with rfl | rfl
  · cases hvalue
    exact ⟨1, rfl, by decide⟩
  · cases hvalue
    exact ⟨3, rfl, by decide⟩

/-- A maximum alone. -/
theorem not_countsExact_max :
    ¬ CountsExact noPatterns 1 [] (objectSchema [keyword "maxProperties" (.int64 3)]) 0 := by
  rintro ⟨spec, specs', valueSpec, hbuild, -⟩
  have hrejected : jsonBuildSchema noPatterns 1 []
      (.object (objectSchema [keyword "maxProperties" (.int64 3)])) =
      .ok (.error (ascii "minProperties must be non-negative")) := rfl
  rw [hrejected] at hbuild
  cases hbuild

end JsonSchema
end ZoweCommon
