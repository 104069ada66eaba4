import ZoweCommon.Lib.Binary64
import ZoweCommon.Schema.ValueSpec

/-! `jsonBuildSchema`: from the text of a schema to value specifications. Messages for the log are
left out. -/
namespace ZoweCommon
namespace JsonSchema

open CLibrary CString

inductive Stop
  | fault (f : Fault)
  | schemaThrow (errorCode : ℕ) (errorMessage : List Byte)

/-- What the builder does to the memory of the schemas. -/
abbrev Build := StateT (List JSValueSpec) (Except Stop)

def ERROR_MAX : ℕ := 1024

def schemaThrow {α : Type} (errorCode : ℕ) (text : List (List Byte)) : Build α :=
  throw (.schemaThrow errorCode (snprintf ERROR_MAX text.flatten))

def fault {α : Type} (f : Fault) : Build α := throw (.fault f)

def getSpec (spec : ℕ) : Build JSValueSpec := do
  match (← get)[spec]? with
  | some valueSpec => return valueSpec
  | none => fault .undefinedBehaviour

def setSpec (spec : ℕ) (change : JSValueSpec → JSValueSpec) : Build Unit :=
  modify fun specs => specs.modify spec change

/-- The properties of an object of the schema. -/
abbrev JsonObject := List (CString × Json)

def jsonObjectGetPropertyValue (object : JsonObject) (propertyName : String) : Option Json :=
  Json.lookup object (ofBytes (ascii propertyName))

def JSON_TYPE (json : Json) : ℕ :=
  match json with
  | .scalar (.number _) => 0
  | .scalar (.string _) => 1
  | .scalar (.boolean _) => 2
  | .scalar .null => 3
  | .object _ => 4
  | .array _ => 5
  | .scalar (.int64 _) => 6
  | .scalar (.double _) => 7

section Values

variable (platform : Platform) (object : JsonObject) (propertyName : String)

def mustContain {α : Type} (what : String) (propertyValue : Json) : Build α :=
  schemaThrow 12 [ascii "property '", ascii propertyName, ascii "' must contain ", ascii what,
    ascii ", not ", platform.valueAsText propertyValue]

def getString (defaultValue : Option CString) : Build (Option CString) :=
  match jsonObjectGetPropertyValue object propertyName with
  | none => return defaultValue
  | some (.scalar (.string s)) => return some s
  | some propertyValue => mustContain platform propertyName "a string" propertyValue

def getBooleanValue (defaultValue : Bool) : Build Bool :=
  match jsonObjectGetPropertyValue object propertyName with
  | none => return defaultValue
  | some (.scalar (.boolean b)) => return b
  | some propertyValue => mustContain platform propertyName "a boolean" propertyValue

def getNumber (defaultValue : BitVec 64) : Build (BitVec 64) :=
  match jsonObjectGetPropertyValue object propertyName with
  | none => return defaultValue
  | some (.scalar (.number n)) => return intToDouble n.toInt
  | some (.scalar (.int64 n)) => return intToDouble n.toInt
  | some (.scalar (.double bits)) => return bits
  | some propertyValue => mustContain platform propertyName "a number" propertyValue

def getIntegralValue (defaultValue : BitVec 64) : Build (BitVec 64) :=
  match jsonObjectGetPropertyValue object propertyName with
  | none => return defaultValue
  | some (.scalar (.int64 n)) => return n
  | some (.scalar (.number n)) =>
    mustContain platform propertyName "an integer" (.scalar (.number n))
  | some (.scalar (.double bits)) =>
    mustContain platform propertyName "an integer" (.scalar (.double bits))
  | some propertyValue => mustContain platform propertyName "a number" propertyValue

def getArrayValue : Build (Option (List Json)) :=
  match jsonObjectGetPropertyValue object propertyName with
  | none => return none
  | some (.array elements) => return some elements
  | some propertyValue => mustContain platform propertyName "an array" propertyValue

def getObjectValue : Build (Option JsonObject) :=
  match jsonObjectGetPropertyValue object propertyName with
  | none => return none
  | some (.object properties) => return some properties
  | some propertyValue => mustContain platform propertyName "an object" propertyValue

end Values

def getJSTypeForName (name : CString) : Build ℕ :=
  if name.bytes = ascii "null" then return JSTYPE_NULL
  else if name.bytes = ascii "boolean" then return JSTYPE_BOOLEAN
  else if name.bytes = ascii "object" then return JSTYPE_OBJECT
  else if name.bytes = ascii "array" then return JSTYPE_ARRAY
  else if name.bytes = ascii "number" then return JSTYPE_NUMBER
  else if name.bytes = ascii "string" then return JSTYPE_STRING
  else if name.bytes = ascii "integer" then return JSTYPE_INTEGER
  else schemaThrow 12 [ascii "'", name.bytes, ascii "' is not valid JSON Schema type"]

def checkNonNegative (value : BitVec 64) (name : String) : Build Unit :=
  if value.toInt < 0 then schemaThrow 12 [ascii name, ascii " must be non-negative"] else return ()

def checkPositiveDouble (value : BitVec 64) (name : String) : Build Unit :=
  if Binary64.le value 0 then schemaThrow 12 [ascii name, ascii " must be positive"] else return ()

def getStringArrayOrFail (platform : Platform) (a : List Json) : Build (List CString) :=
  a.mapM fun
    | .scalar (.string s) => return s
    | element =>
      schemaThrow 12 [ascii "required string array, but saw element=", platform.valueAsText element]

def getID (platform : Platform) (o : JsonObject) : Build (Option CString) := do
  match ← getString platform o "$id" none with
  | some id => return some id
  | none => getString platform o "id" none

/-- The anchor is found in the table of the nearest level with an `$id`. -/
def indexByAnchor (fuel valueSpec : ℕ) (anchor : CString) : Build Unit := do
  match getTopLevelAncestor (← get) fuel valueSpec with
  | .error f => fault f
  | .ok topLevelAncestor =>
    setSpec topLevelAncestor fun spec =>
      { spec with anchorTable := some (htPut (spec.anchorTable.getD []) anchor valueSpec) }

/-- One type more. Numbers allow integers, but not the converse. -/
def JSValueSpec.addType (spec : JSValueSpec) (type : ℕ) : JSValueSpec :=
  let typeMask := spec.typeMask ||| ((1 : BitVec 32) <<< type)
  { spec with
    type := type
    typeMask :=
      if type = JSTYPE_NUMBER then typeMask ||| ((1 : BitVec 32) <<< JSTYPE_INTEGER)
      else typeMask }

/-- The new level comes last in memory. -/
def makeValueSpec (platform : Platform) (parent : Option ℕ) (id : Option CString)
    (typeNameArray : List CString) : Build ℕ := do
  let spec := (← get).length
  let names := match id with
    | some id =>
      if platform.regexComp httpPattern then platform.regexExec httpPattern id else none
    | none => none
  let group (id : CString) (groups : Matches) (n : ℕ) : Option CString :=
    (groups[n]?.join).map fun span => ofBytes (matchText id (some span))
  modify fun specs => specs ++ [{
    id := id
    hostName := id.bind fun id => names.bind fun groups => group id groups 1
    fileName := id.bind fun id => names.bind fun groups => group id groups 2
    parent := parent }]
  typeNameArray.forM fun name => do
    let type ← getJSTypeForName name
    setSpec spec fun valueSpec => valueSpec.addType type
  return spec

def allJSTypeNames : List CString :=
  ["null", "boolean", "object", "array", "number", "string", "integer"].map fun name =>
    ofBytes (ascii name)

def MISSING_VALIDATOR : BitVec 64 := BitVec.ofInt 64 (-7815551212)

def MISSING_FLOAT_VALIDATOR : BitVec 64 := nearestDouble 644212639183 (10 ^ 6) ||| 0x8000000000000000

def getTypeNames (platform : Platform) (object : JsonObject) : Build (List CString) :=
  match jsonObjectGetPropertyValue object "type" with
  | none => return allJSTypeNames
  | some (.scalar (.string s)) => return [s]
  | some (.array elements) => getStringArrayOrFail platform elements
  | some typeValue =>
    schemaThrow 12 [ascii "'type' must be either a single string or an array of string, not type=",
      formatD (JSON_TYPE typeValue)]

section Recursive

variable (platform : Platform) (build : Option ℕ → Json → Build ℕ) (object : JsonObject)

def buildTable (parent : ℕ) : JsonObject → StringTable ℕ → Build (StringTable ℕ)
  | [], table => return table
  | (propertyName, propertyValue) :: properties, table => do
    let spec ← build (some parent) propertyValue
    buildTable parent properties (htPut table propertyName spec)

def getDefinitions (parent : ℕ) : Build (Option (StringTable ℕ)) := do
  match ← getObjectValue platform object "$defs" with
  | some definitionsObject => return some (← buildTable build parent definitionsObject [])
  | none => return none

/-- Each pattern is in its place before the level that belongs to it is built. -/
def addPatternProperties (valueSpec : ℕ) : Build Unit := do
  match ← getObjectValue platform object "patternProperties" with
  | some patternObject =>
    patternObject.forM fun property => do
      let spec ← build (some valueSpec) property.2
      setSpec valueSpec fun valueSpec =>
        { valueSpec with patternProperties := valueSpec.patternProperties ++ [(property.1, spec)] }
  | none => return ()

/-- What is no array is ignored. -/
def getComposite (parent : ℕ) (key : String) : Build (Option (List ℕ)) :=
  match jsonObjectGetPropertyValue object key with
  | some (.array elements) => do return some (← elements.mapM (build (some parent)))
  | _ => return none

def buildObjectSpec (valueSpec : ℕ) : Build Unit := do
  let maxProperties ← getIntegralValue platform object "maxProperties" MISSING_VALIDATOR
  let minProperties ← getIntegralValue platform object "minProperties" MISSING_VALIDATOR
  setSpec valueSpec fun spec =>
    { spec with maxProperties := maxProperties, minProperties := minProperties }
  if maxProperties ≠ MISSING_VALIDATOR then
    checkNonNegative maxProperties "maxProperties"
    setSpec valueSpec fun spec =>
      { spec with validatorFlags := spec.validatorFlags ||| JS_VALIDATOR_MAX_PROPS }
  if maxProperties ≠ MISSING_VALIDATOR then
    checkNonNegative minProperties "minProperties"
    setSpec valueSpec fun spec =>
      { spec with validatorFlags := spec.validatorFlags ||| JS_VALIDATOR_MIN_PROPS }
  match ← getArrayValue platform object "required" with
  | some required =>
    let required ← getStringArrayOrFail platform required
    setSpec valueSpec fun spec => { spec with required := some required }
  | none => pure ()
  match jsonObjectGetPropertyValue object "properties" with
  | some (.object propertiesObject) =>
    let properties ← buildTable build valueSpec propertiesObject []
    setSpec valueSpec fun spec =>
      { spec with properties := if propertiesObject = [] then none else some properties }
  | some properties =>
    schemaThrow 12 [ascii "properties is filled by JSON value that is not object with type=",
      formatD (JSON_TYPE properties), [0x0A]]
  | none => pure ()
  match ← getObjectValue platform object "dependentRequired" with
  | some dependentRequiredSpec =>
    dependentRequiredSpec.forM fun property => do
      match property.2 with
      | .array elements => discard (getStringArrayOrFail platform elements)
      | propertyValue =>
        schemaThrow 12 [ascii "required string array, but saw ", platform.valueAsText propertyValue]
  | none => pure ()

def buildArraySpec (valueSpec : ℕ) : Build Unit := do
  let maxItems ← getIntegralValue platform object "maxItems" MISSING_VALIDATOR
  let minItems ← getIntegralValue platform object "minItems" MISSING_VALIDATOR
  let uniqueItems ← getBooleanValue platform object "uniqueItems" false
  let maxContains ← getIntegralValue platform object "maxContains" MISSING_VALIDATOR
  let minContains ← getIntegralValue platform object "minContains" MISSING_VALIDATOR
  setSpec valueSpec fun spec =>
    { spec with
      maxItems := maxItems
      minItems := minItems
      uniqueItems := uniqueItems
      maxContains := maxContains
      minContains := minContains }
  if maxItems ≠ MISSING_VALIDATOR then
    checkNonNegative maxItems "maxItems"
    setSpec valueSpec fun spec =>
      { spec with validatorFlags := spec.validatorFlags ||| JS_VALIDATOR_MAX_ITEMS }
  if minItems ≠ MISSING_VALIDATOR then
    checkNonNegative minItems "minItems"
    setSpec valueSpec fun spec =>
      { spec with validatorFlags := spec.validatorFlags ||| JS_VALIDATOR_MIN_ITEMS }
  if maxContains ≠ MISSING_VALIDATOR then
    checkNonNegative maxContains "maxContains"
    setSpec valueSpec fun spec =>
      { spec with validatorFlags := spec.validatorFlags ||| JS_VALIDATOR_MAX_CONTAINS }
  if minContains ≠ MISSING_VALIDATOR then
    checkNonNegative minContains "minContains"
    setSpec valueSpec fun spec =>
      { spec with validatorFlags := spec.validatorFlags ||| JS_VALIDATOR_MIN_CONTAINS }
  match jsonObjectGetPropertyValue object "items" with
  | some items =>
    let itemSpec ← build (some valueSpec) items
    setSpec valueSpec fun spec => { spec with itemSpec := some itemSpec }
  | none => pure ()

def buildStringSpec (valueSpec : ℕ) : Build Unit := do
  let maxLength ← getIntegralValue platform object "maxLength" MISSING_VALIDATOR
  let minLength ← getIntegralValue platform object "minLength" MISSING_VALIDATOR
  setSpec valueSpec fun spec => { spec with maxLength := maxLength, minLength := minLength }
  if maxLength ≠ MISSING_VALIDATOR then
    checkNonNegative maxLength "maxLength"
    setSpec valueSpec fun spec =>
      { spec with validatorFlags := spec.validatorFlags ||| JS_VALIDATOR_MAX_LENGTH }
  if minLength ≠ MISSING_VALIDATOR then
    checkNonNegative minLength "maxLength"
    setSpec valueSpec fun spec =>
      { spec with validatorFlags := spec.validatorFlags ||| JS_VALIDATOR_MIN_LENGTH }
  let pattern ← getString platform object "pattern" none
  setSpec valueSpec fun spec => { spec with pattern := pattern }

def buildNumericSpec (valueSpec : ℕ) : Build Unit := do
  let multipleOf ← getNumber platform object "multipleOf" MISSING_FLOAT_VALIDATOR
  let maximum ← getNumber platform object "maximum" MISSING_FLOAT_VALIDATOR
  let exclusiveMaximum ← getBooleanValue platform object "exclusiveMaximum" false
  let minimum ← getNumber platform object "minimum" MISSING_FLOAT_VALIDATOR
  let exclusiveMinimum ← getBooleanValue platform object "exclusiveMinimum" false
  setSpec valueSpec fun spec =>
    { spec with
      multipleOf := multipleOf
      maximum := maximum
      exclusiveMaximum := exclusiveMaximum
      minimum := minimum
      exclusiveMinimum := exclusiveMinimum }
  if !Binary64.eq maximum MISSING_FLOAT_VALIDATOR then
    setSpec valueSpec fun spec =>
      { spec with validatorFlags := spec.validatorFlags ||| JS_VALIDATOR_MAX }
  if !Binary64.eq minimum MISSING_FLOAT_VALIDATOR then
    setSpec valueSpec fun spec =>
      { spec with validatorFlags := spec.validatorFlags ||| JS_VALIDATOR_MIN }
  if !Binary64.eq multipleOf MISSING_FLOAT_VALIDATOR then
    checkPositiveDouble multipleOf "multipleOf"
    setSpec valueSpec fun spec =>
      { spec with validatorFlags := spec.validatorFlags ||| JS_VALIDATOR_MULTOF }

/-- The level for an object, apart from its types, its names and its reference. -/
def buildKeywords (valueSpec : ℕ) : Build Unit := do
  let definitions ← getDefinitions platform build object valueSpec
  setSpec valueSpec fun spec => { spec with definitions := definitions }
  let additionalProperties ← getBooleanValue platform object "additionalProperties" true
  setSpec valueSpec fun spec => { spec with additionalProperties := additionalProperties }
  let unevaluatedProperties ← getBooleanValue platform object "unevaluatedProperties" true
  setSpec valueSpec fun spec => { spec with unevaluatedProperties := unevaluatedProperties }
  addPatternProperties platform build object valueSpec
  let allOf ← getComposite build object valueSpec "allOf"
  setSpec valueSpec fun spec => { spec with allOf := allOf }
  let anyOf ← getComposite build object valueSpec "anyOf"
  setSpec valueSpec fun spec => { spec with anyOf := anyOf }
  let oneOf ← getComposite build object valueSpec "oneOf"
  setSpec valueSpec fun spec => { spec with oneOf := oneOf }
  match jsonObjectGetPropertyValue object "not" with
  | some notSpec =>
    let notSpec ← build (some valueSpec) notSpec
    setSpec valueSpec fun spec => { spec with not := some notSpec }
  | none => pure ()
  let constValue := jsonObjectGetPropertyValue object "const"
  let enumValues ← getArrayValue platform object "enum"
  if constValue.isSome && enumValues.isSome then
    schemaThrow 12 [ascii "cannot specify both 'const' and 'enum' for the same schema"]
  setSpec valueSpec fun spec =>
    { spec with constValue := constValue, enumeratedValues := enumValues }
  let spec ← getSpec valueSpec
  if spec.permits JSTYPE_OBJECT then buildObjectSpec platform build object valueSpec
  if spec.permits JSTYPE_ARRAY then buildArraySpec platform build object valueSpec
  if spec.permits JSTYPE_STRING then buildStringSpec platform object valueSpec
  if spec.permits JSTYPE_NUMBER || spec.permits JSTYPE_INTEGER then
    buildNumericSpec platform object valueSpec

end Recursive

def build (platform : Platform) : ℕ → Option ℕ → Json → Build ℕ
  | 0, _, _ => fault .nonTermination
  | fuel + 1, parent, jsValue =>
    match jsValue with
    | .object object => do
      let typeArray ← getTypeNames platform object
      let _ ← getString platform object "description" none
      let _ ← getString platform object "title" none
      let id ← getID platform object
      let valueSpec ← makeValueSpec platform parent id typeArray
      let ref ← getString platform object "$ref" none
      let anchor ← getString platform object "$anchor" none
      setSpec valueSpec fun spec => { spec with ref := ref, anchor := anchor }
      match anchor with
      | some anchor => indexByAnchor (valueSpec + 1) valueSpec anchor
      | none => pure ()
      -- a level with a reference is nothing but the reference
      if ref.isSome then return valueSpec
      buildKeywords platform (build platform fuel) object valueSpec
      return valueSpec
    | _ => schemaThrow 12 [ascii "top level schema must be an object"]

/-- The schema, or the message that says why there is none; and the memory afterwards. -/
def jsonBuildSchema (platform : Platform) (fuel : ℕ) (specs : List JSValueSpec) (schemaJson : Json) :
    Exec (Except (List Byte) (ℕ × List JSValueSpec)) :=
  match (build platform fuel none schemaJson).run specs with
  | .ok schema => return .ok schema
  | .error (.schemaThrow _ errorMessage) => return .error errorMessage
  | .error (.fault f) => throw f

end JsonSchema
end ZoweCommon
