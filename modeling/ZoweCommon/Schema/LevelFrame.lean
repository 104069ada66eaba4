import ZoweCommon.Lib.StateFrame
import ZoweCommon.Schema.Builder

/-! A level of a schema is built without regard to the types and the counts of the others. -/
namespace ZoweCommon
namespace JsonSchema

open CString StateFrame

def countFlags : BitVec 64 := JS_VALIDATOR_MAX_PROPS ||| JS_VALIDATOR_MIN_PROPS

/-- The types of a level, and what is made of `minProperties` and `maxProperties`. -/
structure Counts where
  typeMask : BitVec 32
  minProperties : BitVec 64
  maxProperties : BitVec 64
  flags : BitVec 64

def Counts.put (c : Counts) (spec : JSValueSpec) : JSValueSpec :=
  { spec with
    typeMask := c.typeMask
    minProperties := c.minProperties
    maxProperties := c.maxProperties
    validatorFlags := spec.validatorFlags &&& ~~~countFlags ||| c.flags }

/-- The computation does the same whatever level `i` holds there. -/
def Independent {α : Type} (i : ℕ) (c : Counts) (m : Build α) : Prop :=
  Commutes (fun specs : List JSValueSpec => specs.modify i c.put) (fun specs => i < specs.length) m

namespace Independent

variable {α β : Type} {i : ℕ} {c : Counts}

theorem pure (a : α) : Independent i c (Pure.pure a) := Commutes.pure a

theorem thrown (errorCode : ℕ) (text : List (List Byte)) :
    Independent i c (schemaThrow (α := α) errorCode text) :=
  Commutes.throw _

theorem faulty (f : Fault) : Independent i c (fault (α := α) f) := Commutes.throw _

theorem bind {m : Build α} {f : α → Build β} (hm : Independent i c m)
    (hf : ∀ a, Independent i c (f a)) : Independent i c (m >>= f) :=
  Commutes.bind hm hf

theorem ite {p : Prop} [Decidable p] {m m' : Build α} (h : Independent i c m)
    (h' : Independent i c m') : Independent i c (if p then m else m') :=
  Commutes.ite h h'

/-- A level that is not `i`, or a change that has nothing to do with the counts. -/
theorem change {spec : ℕ} {f : JSValueSpec → JSValueSpec}
    (h : spec ≠ i ∨ ∀ s, f (c.put s) = c.put (f s)) : Independent i c (setSpec spec f) := by
  apply Commutes.update
  · intro specs hi
    rw [List.length_modify]
    exact hi
  · intro specs _
    apply List.ext_getElem?
    intro j
    simp only [List.getElem?_modify]
    cases specs[j]? with
    | none => rfl
    | some s =>
      by_cases hspec : spec = j
      · by_cases hij : i = j
        · rcases h with hne | hcommutes
          · exact absurd (hspec.trans hij.symm) hne
          · simp [hspec, hij, hcommutes]
        · simp [hspec, hij]
      · simp [hspec]

theorem level {spec : ℕ} (h : spec ≠ i) : Independent i c (getSpec spec) := by
  refine Commutes.read (fun specs _ => ?_) fun specs _ => ?_
  · rw [List.getElem?_modify_ne _ _ h.symm]
  · split
    · exact pure _
    · exact faulty _

end Independent

theorem put_flag (c : Counts) {d : BitVec 64} (h : d &&& ~~~countFlags = d) (s : JSValueSpec) :
    { c.put s with validatorFlags := (c.put s).validatorFlags ||| d } =
      c.put { s with validatorFlags := s.validatorFlags ||| d } := by
  have hflags : s.validatorFlags &&& ~~~countFlags ||| c.flags ||| d =
      (s.validatorFlags ||| d) &&& ~~~countFlags ||| c.flags := by
    rw [BitVec.and_or_distrib_right, h, BitVec.or_assoc, BitVec.or_comm c.flags, BitVec.or_assoc]
  unfold Counts.put
  dsimp only
  rw [hflags]

section Values

variable {i : ℕ} {c : Counts} (platform : Platform) (object : JsonObject) (propertyName : String)

theorem independent_mustContain {α : Type} (what : String) (propertyValue : Json) :
    Independent i c (mustContain (α := α) platform propertyName what propertyValue) :=
  .thrown _ _

theorem independent_getString (defaultValue : Option CString) :
    Independent i c (getString platform object propertyName defaultValue) := by
  unfold getString
  split
  · exact .pure _
  · exact .pure _
  · exact independent_mustContain _ _ _ _

theorem independent_getBooleanValue (defaultValue : Bool) :
    Independent i c (getBooleanValue platform object propertyName defaultValue) := by
  unfold getBooleanValue
  split
  · exact .pure _
  · exact .pure _
  · exact independent_mustContain _ _ _ _

theorem independent_getNumber (defaultValue : BitVec 64) :
    Independent i c (getNumber platform object propertyName defaultValue) := by
  unfold getNumber
  split
  · exact .pure _
  · exact .pure _
  · exact .pure _
  · exact .pure _
  · exact independent_mustContain _ _ _ _

theorem independent_getIntegralValue (defaultValue : BitVec 64) :
    Independent i c (getIntegralValue platform object propertyName defaultValue) := by
  unfold getIntegralValue
  split
  · exact .pure _
  · exact .pure _
  · exact independent_mustContain _ _ _ _
  · exact independent_mustContain _ _ _ _
  · exact independent_mustContain _ _ _ _

theorem independent_getArrayValue :
    Independent i c (getArrayValue platform object propertyName) := by
  unfold getArrayValue
  split
  · exact .pure _
  · exact .pure _
  · exact independent_mustContain _ _ _ _

theorem independent_getObjectValue :
    Independent i c (getObjectValue platform object propertyName) := by
  unfold getObjectValue
  split
  · exact .pure _
  · exact .pure _
  · exact independent_mustContain _ _ _ _

end Values

section Lists

variable {i : ℕ} {c : Counts}

theorem independent_getJSTypeForName (name : CString) :
    Independent i c (getJSTypeForName name) := by
  unfold getJSTypeForName
  repeat' apply Independent.ite (.pure _)
  exact .thrown _ _

theorem independent_checkNonNegative (value : BitVec 64) (name : String) :
    Independent i c (checkNonNegative value name) :=
  .ite (.thrown _ _) (.pure _)

theorem independent_checkPositiveDouble (value : BitVec 64) (name : String) :
    Independent i c (checkPositiveDouble value name) :=
  .ite (.thrown _ _) (.pure _)

theorem independent_getStringArrayOrFail (platform : Platform) (a : List Json) :
    Independent i c (getStringArrayOrFail platform a) := by
  apply Commutes.mapM
  intro element
  split
  · exact Commutes.pure _
  · exact Independent.thrown _ _

theorem independent_getID (platform : Platform) (o : JsonObject) :
    Independent i c (getID platform o) := by
  apply (independent_getString platform o "$id" none).bind
  intro id
  cases id with
  | some id => exact .pure _
  | none => exact independent_getString _ _ _ _

theorem independent_getTypeNames (platform : Platform) (object : JsonObject) :
    Independent i c (getTypeNames platform object) := by
  unfold getTypeNames
  split
  · exact .pure _
  · exact .pure _
  · exact independent_getStringArrayOrFail _ _
  · exact .thrown _ _

end Lists

/-! The keywords of a level, in parts -/

section Parts

variable (platform : Platform) (build : Option ℕ → Json → Build ℕ) (object : JsonObject)

def buildPropertyCounts (valueSpec : ℕ) : Build Unit := do
  let maxProperties ← getIntegralValue platform object "maxProperties" MISSING_VALIDATOR
  let minProperties ← getIntegralValue platform object "minProperties" MISSING_VALIDATOR
  setSpec valueSpec fun spec =>
    { spec with maxProperties := maxProperties, minProperties := minProperties }
  if maxProperties ≠ MISSING_VALIDATOR then
    checkNonNegative maxProperties "maxProperties"
    setSpec valueSpec fun spec =>
      { spec with validatorFlags := spec.validatorFlags ||| JS_VALIDATOR_MAX_PROPS }
    checkNonNegative minProperties "minProperties"
    setSpec valueSpec fun spec =>
      { spec with validatorFlags := spec.validatorFlags ||| JS_VALIDATOR_MIN_PROPS }

def buildProperties (valueSpec : ℕ) : Build Unit := do
  match ← getArrayValue platform object "required" with
  | some required =>
    let required ← getStringArrayOrFail platform required
    setSpec valueSpec fun spec => { spec with required := some required }
  | none => pure ()
  match jsonObjectGetPropertyValue object "properties" with
  | some (.object propertiesObject) =>
    let properties ← buildTable build valueSpec propertiesObject []
    setSpec valueSpec fun spec =>
      { spec with properties := if propertiesObject = [] then none else some properties }
  | some properties =>
    schemaThrow 12 [ascii "properties is filled by JSON value that is not object with type=",
      CLibrary.formatD (JSON_TYPE properties), [0x0A]]
  | none => pure ()
  match ← getObjectValue platform object "dependentRequired" with
  | some dependentRequiredSpec =>
    dependentRequiredSpec.forM fun property => do
      match property.2 with
      | .array elements => discard (getStringArrayOrFail platform elements)
      | propertyValue =>
        schemaThrow 12 [ascii "required string array, but saw ", platform.valueAsText propertyValue]
  | none => pure ()

theorem buildObjectSpec_eq (valueSpec : ℕ) :
    buildObjectSpec platform build object valueSpec = (do
      buildPropertyCounts platform object valueSpec
      buildProperties platform build object valueSpec) := by
  unfold buildObjectSpec buildPropertyCounts
  simp only [bind_assoc]
  congr
  funext maxProperties
  congr
  funext minProperties
  congr
  funext u
  by_cases hmax : maxProperties ≠ MISSING_VALIDATOR
  · simp only [if_pos hmax, bind_assoc]
    rfl
  · simp only [if_neg hmax, pure_bind]
    rfl

def buildCommonKeywords (valueSpec : ℕ) : Build Unit := do
  let definitions ← getDefinitions platform build object valueSpec
  setSpec valueSpec fun spec => { spec with definitions := definitions }
  let additionalProperties ← getBooleanValue platform object "additionalProperties" true
  setSpec valueSpec fun spec => { spec with additionalProperties := additionalProperties }
  let unevaluatedProperties ← getBooleanValue platform object "unevaluatedProperties" true
  setSpec valueSpec fun spec => { spec with unevaluatedProperties := unevaluatedProperties }
  addPatternProperties platform build object valueSpec
  let allOf ← getComposite build object valueSpec "allOf"
  setSpec valueSpec fun spec => { spec with allOf := allOf }
  let anyOf ← getComposite build object valueSpec "anyOf"
  setSpec valueSpec fun spec => { spec with anyOf := anyOf }
  let oneOf ← getComposite build object valueSpec "oneOf"
  setSpec valueSpec fun spec => { spec with oneOf := oneOf }
  match jsonObjectGetPropertyValue object "not" with
  | some notSpec =>
    let notSpec ← build (some valueSpec) notSpec
    setSpec valueSpec fun spec => { spec with not := some notSpec }
  | none => pure ()
  let constValue := jsonObjectGetPropertyValue object "const"
  let enumValues ← getArrayValue platform object "enum"
  if constValue.isSome && enumValues.isSome then
    schemaThrow 12 [ascii "cannot specify both 'const' and 'enum' for the same schema"]
  setSpec valueSpec fun spec =>
    { spec with constValue := constValue, enumeratedValues := enumValues }

def buildOtherTypes (spec : JSValueSpec) (valueSpec : ℕ) : Build Unit := do
  if spec.permits JSTYPE_ARRAY then buildArraySpec platform build object valueSpec
  if spec.permits JSTYPE_STRING then buildStringSpec platform object valueSpec
  if spec.permits JSTYPE_NUMBER || spec.permits JSTYPE_INTEGER then
    buildNumericSpec platform object valueSpec

theorem buildKeywords_eq (valueSpec : ℕ) :
    buildKeywords platform build object valueSpec = (do
      buildCommonKeywords platform build object valueSpec
      let spec ← getSpec valueSpec
      if spec.permits JSTYPE_OBJECT then buildObjectSpec platform build object valueSpec
      buildOtherTypes platform build object spec valueSpec) := by
  unfold buildKeywords buildCommonKeywords
  simp only [bind_assoc]
  refine bind_congr fun definitions => bind_congr fun _ => bind_congr fun additionalProperties =>
    bind_congr fun _ => bind_congr fun unevaluatedProperties => bind_congr fun _ =>
    bind_congr fun _ => bind_congr fun allOf => bind_congr fun _ => bind_congr fun anyOf =>
    bind_congr fun _ => bind_congr fun oneOf => bind_congr fun _ => ?_
  cases jsonObjectGetPropertyValue object "not" with
  | none =>
    dsimp only
    rw [bind_assoc]
    refine bind_congr fun enumValues => ?_
    split_ifs <;> rfl
  | some notSpec =>
    simp only [bind_assoc]
    refine bind_congr fun notSpec => bind_congr fun _ => bind_congr fun enumValues => ?_
    split_ifs <;> rfl

end Parts

section Flags

variable {i : ℕ} {c : Counts} {valueSpec : ℕ}

theorem independent_flag {d : BitVec 64} (h : d &&& ~~~countFlags = d) :
    Independent i c (setSpec valueSpec
      fun spec => { spec with validatorFlags := spec.validatorFlags ||| d }) :=
  .change (.inr (put_flag c h))

theorem independent_bound {value : BitVec 64} {name : String} {d : BitVec 64}
    (h : d &&& ~~~countFlags = d) {rest : Unit → Build Unit}
    (hrest : ∀ u, Independent i c (rest u)) :
    Independent i c (if value ≠ MISSING_VALIDATOR then do
      checkNonNegative value name
      rest (← setSpec valueSpec fun spec =>
        { spec with validatorFlags := spec.validatorFlags ||| d })
    else rest ()) :=
  .ite ((independent_checkNonNegative _ _).bind fun _ => (independent_flag h).bind hrest) (hrest ())

theorem independent_buildStringSpec (platform : Platform) (object : JsonObject) (valueSpec : ℕ) :
    Independent i c (buildStringSpec platform object valueSpec) := by
  unfold buildStringSpec
  apply (independent_getIntegralValue _ _ _ _).bind
  intro maxLength
  apply (independent_getIntegralValue _ _ _ _).bind
  intro minLength
  refine Independent.bind (.change (.inr fun _ => rfl)) fun _ => ?_
  extract_lets pattern minLengthChecked
  have hpattern : ∀ u, Independent i c (pattern u) := fun u =>
    (independent_getString _ _ _ _).bind fun _ => .change (.inr fun _ => rfl)
  have hminLength : ∀ u, Independent i c (minLengthChecked u) :=
    fun u => independent_bound rfl hpattern
  exact independent_bound rfl hminLength

theorem independent_buildNumericSpec (platform : Platform) (object : JsonObject) (valueSpec : ℕ) :
    Independent i c (buildNumericSpec platform object valueSpec) := by
  unfold buildNumericSpec
  apply (independent_getNumber _ _ _ _).bind
  intro multipleOf
  apply (independent_getNumber _ _ _ _).bind
  intro maximum
  apply (independent_getBooleanValue _ _ _ _).bind
  intro exclusiveMaximum
  apply (independent_getNumber _ _ _ _).bind
  intro minimum
  apply (independent_getBooleanValue _ _ _ _).bind
  intro exclusiveMinimum
  refine Independent.bind (.change (.inr fun _ => rfl)) fun _ => ?_
  extract_lets multipleOfChecked minimumChecked
  have hmultipleOf : ∀ u, Independent i c (multipleOfChecked u) := fun u =>
    .ite ((independent_checkPositiveDouble _ _).bind fun _ => independent_flag rfl) (.pure _)
  have hminimum : ∀ u, Independent i c (minimumChecked u) := fun u =>
    .ite ((independent_flag rfl).bind hmultipleOf) (hmultipleOf ())
  exact .ite ((independent_flag rfl).bind hminimum) (hminimum ())

theorem independent_buildPropertyCounts (platform : Platform) (object : JsonObject)
    (hne : valueSpec ≠ i) : Independent i c (buildPropertyCounts platform object valueSpec) := by
  unfold buildPropertyCounts
  apply (independent_getIntegralValue _ _ _ _).bind
  intro maxProperties
  apply (independent_getIntegralValue _ _ _ _).bind
  intro minProperties
  refine Independent.bind (.change (.inl hne)) fun _ => ?_
  refine .ite ?_ (.pure _)
  exact (independent_checkNonNegative _ _).bind fun _ =>
    Independent.bind (.change (.inl hne)) fun _ =>
      (independent_checkNonNegative _ _).bind fun _ => .change (.inl hne)

theorem independent_indexByAnchor (fuel spec : ℕ) (anchor : CString) :
    Independent i c (indexByAnchor fuel spec anchor) := by
  have hread : ∀ specs : List JSValueSpec, i < specs.length →
      getTopLevelAncestor (specs.modify i c.put) fuel spec = getTopLevelAncestor specs fuel spec := by
    intro specs _
    induction fuel generalizing spec with
    | zero => rfl
    | succ fuel ih =>
      rw [getTopLevelAncestor, getTopLevelAncestor, List.getElem?_modify]
      cases specs[spec]? with
      | none => rfl
      | some s =>
        by_cases hi : i = spec
        · simp [hi, Counts.put, ← ih]
        · simp [hi, ih]
  refine Commutes.read (fun specs hi => ?_) fun specs _ => ?_
  · rw [hread specs hi]
  · split
    · exact Independent.faulty _
    · exact Independent.change (.inr fun _ => rfl)

theorem modify_append {α : Type} {f : α → α} {xs ys : List α} {i : ℕ} (h : i < xs.length) :
    (xs ++ ys).modify i f = xs.modify i f ++ ys := by
  induction xs generalizing i with
  | nil => exact absurd h (Nat.not_lt_zero i)
  | cons x xs ih =>
    cases i with
    | zero => rfl
    | succ i => exact congrArg (x :: ·) (ih (Nat.lt_of_succ_lt_succ h))

/-- The making of a level whose address is known. -/
def makeLevel (platform : Platform) (parent : Option ℕ) (id : Option CString)
    (typeNameArray : List CString) (spec : ℕ) : Build ℕ := do
  let names := match id with
    | some id =>
      if platform.regexComp httpPattern then platform.regexExec httpPattern id else none
    | none => none
  let group (id : CString) (groups : Matches) (n : ℕ) : Option CString :=
    (groups[n]?.join).map fun span => ofBytes (matchText id (some span))
  modify fun specs => specs ++ [{
    id := id
    hostName := id.bind fun id => names.bind fun groups => group id groups 1
    fileName := id.bind fun id => names.bind fun groups => group id groups 2
    parent := parent }]
  typeNameArray.forM fun name => do
    let type ← getJSTypeForName name
    setSpec spec fun valueSpec => valueSpec.addType type
  return spec

theorem makeValueSpec_eq (platform : Platform) (parent : Option ℕ) (id : Option CString)
    (typeNameArray : List CString) : makeValueSpec platform parent id typeNameArray =
      get >>= fun specs => makeLevel platform parent id typeNameArray specs.length := rfl

/-- The level that is made comes behind all the others. -/
theorem independent_makeValueSpec {α : Type} (platform : Platform) (parent : Option ℕ)
    (id : Option CString) (typeNameArray : List CString) {rest : ℕ → Build α}
    (hrest : ∀ spec, spec ≠ i → Independent i c (rest spec)) :
    Independent i c (makeValueSpec platform parent id typeNameArray >>= rest) := by
  have happend (made : JSValueSpec) :
      Independent i c (modify fun specs : List JSValueSpec => specs ++ [made]) := by
    apply Commutes.update
    · intro specs hi
      rw [List.length_append]
      exact Nat.lt_add_right _ hi
    · intro specs hi
      exact (modify_append hi).symm
  have hlevel (spec : ℕ) (hne : spec ≠ i) :
      Independent i c (makeLevel platform parent id typeNameArray spec >>= rest) := by
    unfold makeLevel
    simp only [bind_assoc, pure_bind]
    refine (happend _).bind fun _ => Independent.bind (Commutes.forM fun name => ?_)
      fun _ => hrest spec hne
    exact (independent_getJSTypeForName name).bind fun type => .change (.inl hne)
  rw [makeValueSpec_eq, bind_assoc]
  refine Commutes.read (fun specs _ => ?_) fun specs hi => hlevel specs.length hi.ne'
  rw [List.length_modify]

end Flags

section Recursive

variable {i : ℕ} {c : Counts} (platform : Platform) {build : Option ℕ → Json → Build ℕ}
  (hbuild : ∀ parent json, Independent i c (build parent json)) (object : JsonObject)
include hbuild

theorem independent_buildTable (parent : ℕ) (properties : JsonObject) (table : StringTable ℕ) :
    Independent i c (buildTable build parent properties table) := by
  induction properties generalizing table with
  | nil => exact .pure _
  | cons property properties ih => exact (hbuild _ _).bind fun spec => ih _

theorem independent_getDefinitions (parent : ℕ) :
    Independent i c (getDefinitions platform build object parent) := by
  apply (independent_getObjectValue platform object "$defs").bind
  intro definitions
  cases definitions with
  | some definitionsObject => exact (independent_buildTable hbuild _ _ _).bind fun _ => .pure _
  | none => exact .pure _

theorem independent_addPatternProperties (valueSpec : ℕ) :
    Independent i c (addPatternProperties platform build object valueSpec) := by
  apply (independent_getObjectValue platform object "patternProperties").bind
  intro patterns
  cases patterns with
  | some patternObject =>
    apply Commutes.forM
    intro property
    exact (hbuild _ _).bind fun spec => .change (.inr fun _ => rfl)
  | none => exact .pure _

theorem independent_getComposite (parent : ℕ) (key : String) :
    Independent i c (getComposite build object parent key) := by
  unfold getComposite
  split
  · exact Independent.bind (Commutes.mapM fun _ => hbuild _ _) fun _ => .pure _
  · exact .pure _

theorem independent_buildProperties (valueSpec : ℕ) :
    Independent i c (buildProperties platform build object valueSpec) := by
  unfold buildProperties
  extract_lets dependent properties
  have hdependent : ∀ u, Independent i c (dependent u) := by
    intro u
    apply (independent_getObjectValue platform object "dependentRequired").bind
    intro dependentRequired
    cases dependentRequired with
    | none => exact Independent.pure _
    | some dependentRequiredSpec =>
      apply Commutes.forM
      intro property
      cases property.2 with
      | array elements =>
        exact (independent_getStringArrayOrFail platform elements).bind fun _ => .pure _
      | object properties => exact Independent.thrown _ _
      | scalar s => exact Independent.thrown _ _
  have hproperties : ∀ u, Independent i c (properties u) := by
    intro u
    dsimp only [properties]
    cases jsonObjectGetPropertyValue object "properties" with
    | none => exact hdependent ()
    | some value =>
      cases value with
      | object propertiesObject =>
        exact (independent_buildTable hbuild _ _ _).bind fun _ =>
          Independent.bind (.change (.inr fun _ => rfl)) hdependent
      | array elements => exact (Independent.thrown _ _).bind hdependent
      | scalar s => exact (Independent.thrown _ _).bind hdependent
  apply (independent_getArrayValue platform object "required").bind
  intro required
  cases required with
  | none => exact hproperties ()
  | some required =>
    exact (independent_getStringArrayOrFail platform required).bind fun _ =>
      Independent.bind (.change (.inr fun _ => rfl)) hproperties

theorem independent_buildArraySpec (valueSpec : ℕ) :
    Independent i c (buildArraySpec platform build object valueSpec) := by
  unfold buildArraySpec
  apply (independent_getIntegralValue _ _ _ _).bind
  intro maxItems
  apply (independent_getIntegralValue _ _ _ _).bind
  intro minItems
  apply (independent_getBooleanValue _ _ _ _).bind
  intro uniqueItems
  apply (independent_getIntegralValue _ _ _ _).bind
  intro maxContains
  apply (independent_getIntegralValue _ _ _ _).bind
  intro minContains
  refine Independent.bind (.change (.inr fun _ => rfl)) fun _ => ?_
  extract_lets items minContainsChecked maxContainsChecked minItemsChecked
  have hitems : ∀ u, Independent i c (items u) := by
    intro u
    dsimp only [items]
    cases jsonObjectGetPropertyValue object "items" with
    | none => exact .pure _
    | some json => exact (hbuild _ _).bind fun _ => .change (.inr fun _ => rfl)
  have hminContains : ∀ u, Independent i c (minContainsChecked u) := fun u => independent_bound rfl hitems
  have hmaxContains : ∀ u, Independent i c (maxContainsChecked u) := fun u => independent_bound rfl hminContains
  have hminItems : ∀ u, Independent i c (minItemsChecked u) := fun u => independent_bound rfl hmaxContains
  exact independent_bound rfl hminItems

theorem independent_buildCommonKeywords (valueSpec : ℕ) :
    Independent i c (buildCommonKeywords platform build object valueSpec) := by
  unfold buildCommonKeywords
  refine (independent_getDefinitions platform hbuild object valueSpec).bind fun _ => ?_
  refine Independent.bind (.change (.inr fun _ => rfl)) fun _ => ?_
  refine (independent_getBooleanValue _ _ _ _).bind fun _ => ?_
  refine Independent.bind (.change (.inr fun _ => rfl)) fun _ => ?_
  refine (independent_getBooleanValue _ _ _ _).bind fun _ => ?_
  refine Independent.bind (.change (.inr fun _ => rfl)) fun _ => ?_
  refine (independent_addPatternProperties platform hbuild object valueSpec).bind fun _ => ?_
  refine (independent_getComposite hbuild object valueSpec _).bind fun _ => ?_
  refine Independent.bind (.change (.inr fun _ => rfl)) fun _ => ?_
  refine (independent_getComposite hbuild object valueSpec _).bind fun _ => ?_
  refine Independent.bind (.change (.inr fun _ => rfl)) fun _ => ?_
  refine (independent_getComposite hbuild object valueSpec _).bind fun _ => ?_
  refine Independent.bind (.change (.inr fun _ => rfl)) fun _ => ?_
  extract_lets constValue values
  have hvalues : ∀ u, Independent i c (values u) := by
    intro u
    refine (independent_getArrayValue platform object "enum").bind fun enumValues => ?_
    extract_lets enumerated
    have henumerated : ∀ u, Independent i c (enumerated u) := fun u => .change (.inr fun _ => rfl)
    exact .ite ((Independent.thrown _ _).bind henumerated) (henumerated ())
  cases jsonObjectGetPropertyValue object "not" with
  | none => exact hvalues ()
  | some notSpec =>
    exact (hbuild _ _).bind fun _ => Independent.bind (.change (.inr fun _ => rfl)) hvalues

theorem independent_buildOtherTypes (spec : JSValueSpec) (valueSpec : ℕ) :
    Independent i c (buildOtherTypes platform build object spec valueSpec) := by
  unfold buildOtherTypes
  extract_lets numeric text
  have hnumeric : ∀ u, Independent i c (numeric u) := fun u =>
    .ite (independent_buildNumericSpec _ _ _) (.pure _)
  have htext : ∀ u, Independent i c (text u) := fun u =>
    .ite ((independent_buildStringSpec _ _ _).bind hnumeric) (hnumeric ())
  exact .ite ((independent_buildArraySpec platform hbuild object valueSpec).bind htext) (htext ())

theorem independent_buildKeywords {valueSpec : ℕ} (hne : valueSpec ≠ i) :
    Independent i c (buildKeywords platform build object valueSpec) := by
  rw [buildKeywords_eq]
  refine (independent_buildCommonKeywords platform hbuild object valueSpec).bind fun _ => ?_
  refine (Independent.level hne).bind fun spec => ?_
  have hother := independent_buildOtherTypes platform hbuild object spec valueSpec
  refine .ite (Independent.bind ?_ fun _ => hother) hother
  rw [buildObjectSpec_eq]
  exact (independent_buildPropertyCounts platform object hne).bind fun _ =>
    independent_buildProperties platform hbuild object valueSpec

end Recursive

/-- By induction on the fuel: whatever is built changes the types and the counts of no level that
was there before. -/
theorem independent_build {i : ℕ} {c : Counts} (platform : Platform) (fuel : ℕ)
    (parent : Option ℕ) (jsValue : Json) : Independent i c (build platform fuel parent jsValue) := by
  induction fuel generalizing parent jsValue with
  | zero => exact .faulty _
  | succ fuel ih =>
    cases jsValue with
    | scalar s => exact Independent.thrown 12 [ascii "top level schema must be an object"]
    | array elements => exact Independent.thrown 12 [ascii "top level schema must be an object"]
    | object object =>
      rw [build]
      refine (independent_getTypeNames platform object).bind fun typeArray => ?_
      refine (independent_getString _ _ _ _).bind fun _ => ?_
      refine (independent_getString _ _ _ _).bind fun _ => ?_
      refine (independent_getID platform object).bind fun id => ?_
      refine independent_makeValueSpec platform parent id typeArray fun valueSpec hne => ?_
      refine (independent_getString _ _ _ _).bind fun ref => ?_
      refine (independent_getString _ _ _ _).bind fun anchor => ?_
      refine Independent.bind (.change (.inr fun _ => rfl)) fun _ => ?_
      extract_lets keywords
      have hkeywords : ∀ u, Independent i c (keywords u) := fun u =>
        .ite (.pure _) ((independent_buildKeywords platform ih object hne).bind fun _ => .pure _)
      cases anchor with
      | none => exact hkeywords ()
      | some anchor => exact (independent_indexByAnchor _ _ _).bind hkeywords

end JsonSchema
end ZoweCommon
