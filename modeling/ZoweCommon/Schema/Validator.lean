import Mathlib.Data.Finset.Insert
import ZoweCommon.Lib.Binary64
import ZoweCommon.Schema.ValueSpec

/-! `jsonValidateSchema`. Integers are passed to `printf` in 64 bits each, so that `%d` shows the
low half of a longer one; where it expects an address, an integer has no meaning. -/
namespace ZoweCommon
namespace JsonSchema

open CLibrary CString

inductive VStatus
  | InvalidStop
  | ValidStop
  | InvalidContinue
  | ValidContinue
  deriving DecidableEq

def VStatus.toNat : VStatus → ℕ
  | .InvalidStop => 0
  | .ValidStop => 1
  | .InvalidContinue => 2
  | .ValidContinue => 3

def vStatusValid (r : VStatus) : Bool := r = .ValidStop || r = .ValidContinue

def vStatusMin (a b : VStatus) : VStatus :=
  let minValid := min (a.toNat &&& 1) (b.toNat &&& 1)
  let minContinue := min (a.toNat &&& 2) (b.toNat &&& 2)
  match minContinue ||| minValid with
  | 0 => .InvalidStop
  | 1 => .ValidStop
  | 2 => .InvalidContinue
  | _ => .ValidContinue

inductive ValidityException
  | mk (message : Option (List Byte)) (children : List ValidityException)

structure VResult where
  status : VStatus
  exception : Option ValidityException

inductive PathElement
  | name (s : CString)
  | index (i : ℕ)

def MAX_SCHEMA_DEPTH : ℕ := 100

abbrev AccessPath := List PathElement

def accessPathPush (accessPath : AccessPath) (element : PathElement) : AccessPath :=
  if accessPath.length < MAX_SCHEMA_DEPTH then accessPath ++ [element] else accessPath

def accessPathPop (accessPath : AccessPath) : AccessPath := accessPath.dropLast

def MAX_ACCESS_PATH : ℕ := 1024

/-- There has to be room for the terminator. -/
def putText (buffer text : List Byte) : Exec (List Byte) :=
  if buffer.length + text.length < MAX_ACCESS_PATH then return buffer ++ text
  else throw .undefinedBehaviour

def PathElement.text : PathElement → List Byte
  | .name s => 0x2F :: s.bytes
  | .index i => 0x2F :: formatD i

def fillAccessPathString : List Byte → AccessPath → Exec (List Byte)
  | buffer, [] => return buffer
  | buffer, element :: path => do
    if buffer.length + 100 ≥ MAX_ACCESS_PATH then putText buffer (ascii "...")
    else fillAccessPathString (← putText buffer element.text) path

def validatorAccessPath (accessPath : AccessPath) : Exec (List Byte) :=
  fillAccessPathString [] accessPath

def MAX_VALIDITY_EXCEPTION_MSG : ℕ := 1024

def validityMessage (text : List (List Byte)) : List Byte :=
  snprintf MAX_VALIDITY_EXCEPTION_MSG text.flatten

def makeValidityException (message : List Byte) : ValidityException := .mk (some message) []

def simpleFailure (text : List (List Byte)) : VResult :=
  ⟨.InvalidStop, some (makeValidityException (validityMessage text))⟩

def failureWithException (message : List Byte) (children : List ValidityException) : VResult :=
  ⟨.InvalidStop, some (.mk (some message) children)⟩

def simpleSuccess : VResult := ⟨.ValidContinue, none⟩

/-- What a format makes without arguments: `%%` is the only conversion that needs none. -/
def formatAlone : List Byte → Exec (List Byte)
  | [] => return []
  | 0x25 :: 0x25 :: text => do return 0x25 :: (← formatAlone text)
  | 0x25 :: _ => throw .undefinedBehaviour
  | b :: text => do return b :: (← formatAlone text)

/-- A value of the document that is validated; its place stands for its address. -/
structure Value where
  place : List ℕ
  json : Json

/-- The properties that were evaluated, each with the place of its object. -/
abbrev EvalSet := Finset (List ℕ × CString)

/-- What changes while validating. The innermost set is the first. -/
structure ValidatorState where
  accessPath : AccessPath
  evalSets : List EvalSet

/-- What stays the same. -/
structure JsonValidator where
  specs : List JSValueSpec
  topSchema : ℕ
  otherSchemas : List ℕ
  allowStringToBeNull : Bool

namespace ValidatorState

def push (st : ValidatorState) (element : PathElement) : ValidatorState :=
  { st with accessPath := accessPathPush st.accessPath element }

def pop (st : ValidatorState) : ValidatorState :=
  { st with accessPath := accessPathPop st.accessPath }

def extendEvalSets (st : ValidatorState) : ValidatorState :=
  { st with evalSets := ∅ :: st.evalSets }

/-- The set that was added by `extendEvalSets` is not used any more. -/
def leaveEvalSet (st : ValidatorState) : ValidatorState :=
  { st with evalSets := st.evalSets.tail }

def notePropertyEvaluation (st : ValidatorState) (object : List ℕ) (propertyName : CString) :
    ValidatorState :=
  { st with evalSets := st.evalSets.map fun evalSet => insert (object, propertyName) evalSet }

end ValidatorState

def hasBeenEvaluated (evalSet : EvalSet) (object : List ℕ) (propertyName : CString) : Bool :=
  (object, propertyName) ∈ evalSet

/-- A function that validates a value against a level. -/
abbrev Validate := ValidatorState → Value → ℕ → Exec (VResult × ValidatorState)

def validateType (st : ValidatorState) (typeCode : ℕ) (valueSpec : JSValueSpec) : Exec VResult := do
  if valueSpec.permits typeCode then return simpleSuccess
  else
    return simpleFailure [ascii "type '", getJSTypeName typeCode, ascii "' not permitted at ",
      ← validatorAccessPath st.accessPath, ascii "; expecting type '",
      getJSTypeName valueSpec.type, ascii "'"]

section Compare

variable (platform : Platform)

def regexMatches (pattern s : CString) : Bool :=
  platform.regexComp pattern && (platform.regexExec pattern s).isSome

/-- A property of its own comes first, then the patterns in their order. -/
def getPropertyValueSpec (valueSpec : JSValueSpec) (propertyName : CString) : Option ℕ :=
  match valueSpec.properties.bind fun table => htGet table propertyName with
  | some propertyValueSpec => some propertyValueSpec
  | none =>
    (valueSpec.patternProperties.find? fun p => regexMatches platform p.1 propertyName).map Prod.snd

def jsonEquals (a : Value) (b : Json) (spec n : ℕ) : Bool :=
  match a.json, b with
  | .scalar (.string s), .scalar (.string t) => s = t
  | .scalar (.string _), _ => false
  | .scalar s, .scalar t => s = t && platform.sameUnsetBytes a.place spec n
  | _, _ => false

/-- Characters are signed, and the arithmetic wraps. -/
def hashString (s : CString) : BitVec 64 :=
  let hash := s.bytes.foldl (fun (hash : BitVec 64) (c : Byte) =>
    (hash <<< 5) + hash + c.signExtend 64) 5381
  hash &&& 0x7FFFFFFFFFFFFFFF

def hashMask : BitVec 64 := 0x00FFFFFFFFFFFFFF

/-- A double that has no integer part of 64 bits has no meaning here. -/
def doubleToInt64 (bits : BitVec 64) : Exec ℤ :=
  match Binary64.truncate bits with
  | some z => if -2 ^ 63 ≤ z ∧ z < 2 ^ 63 then return z else throw .undefinedBehaviour
  | none => throw .undefinedBehaviour

theorem truncate_of_doubleToInt64 {bits : BitVec 64} {lim : ℤ} (h : doubleToInt64 bits = .ok lim) :
    Binary64.truncate bits = some lim := by
  unfold doubleToInt64 at h
  cases htruncate : Binary64.truncate bits with
  | none =>
    rw [htruncate] at h
    cases h
  | some z =>
    rw [htruncate] at h
    dsimp only at h
    split at h
    · cases h
      rfl
    · cases h

def jsonLongHash (value : Value) : Exec (BitVec 64) :=
  match value.json with
  | .scalar (.number n) => return hashMask &&& n.signExtend 64
  | .scalar (.int64 n) => return (6 : BitVec 64) <<< 56 ||| (hashMask &&& n)
  | .scalar (.double bits) => do
    return (7 : BitVec 64) <<< 56 ||| (hashMask &&& BitVec.ofInt 64 (← doubleToInt64 bits))
  | .scalar (.string s) => return (1 : BitVec 64) <<< 56 ||| (hashMask &&& hashString s)
  | .scalar (.boolean b) => return (2 : BitVec 64) <<< 56 ||| if b then 1 else 0
  | .scalar .null => return (3 : BitVec 64) <<< 56
  | .object _ => return (4 : BitVec 64) <<< 56 ||| platform.address value.place
  | .array _ => return (5 : BitVec 64) <<< 56 ||| platform.address value.place

end Compare

/-- A wider integer where `%d` is written. -/
def formatLow (n : BitVec 64) : List Byte := formatD (n.truncate 32).toInt

/-! Objects -/

section Objects

variable (platform : Platform) (validate : Validate) (valueSpec : JSValueSpec)

def checkRequired (st : ValidatorState) (object : List (CString × Json)) (required : List CString) :
    Exec (List ValidityException) := do
  let missing := required.filter fun name => (Json.lookup object name).isNone
  missing.mapM fun requiredProperty => do
    return makeValidityException (validityMessage [ascii "missing required property '",
      requiredProperty.bytes, ascii "' at '", ← validatorAccessPath st.accessPath, ascii "'"])

/-- A property that belongs to no level. -/
def checkOther (st : ValidatorState) (object : List ℕ) (propertyName : CString) :
    Exec (List ValidityException) := do
  if valueSpec.additionalProperties = false then
    return [makeValidityException (validityMessage
      [ascii "unspecified additional property not allowed: '", propertyName.bytes, ascii "' at '",
        ← validatorAccessPath st.accessPath, ascii "'"])]
  else if valueSpec.unevaluatedProperties = false then
    match st.evalSets with
    | [] => throw .undefinedBehaviour
    | ourEvalSet :: _ =>
      if hasBeenEvaluated ourEvalSet object propertyName then return []
      else
        return [makeValidityException (validityMessage
          [ascii "unevaluated property not allowed: '", propertyName.bytes, ascii "' at '",
            ← validatorAccessPath st.accessPath, ascii "'"])]
  else return []

def validateProperties (object : List ℕ) : ℕ → List (CString × Json) → ValidatorState →
    Exec (List ValidityException × ValidatorState)
  | _, [], st => return ([], st)
  | n, (propertyName, propertyValue) :: properties, st => do
    let st := st.push (.name propertyName)
    let (exceptions, st) ←
      match getPropertyValueSpec platform valueSpec propertyName with
      | some propertySpec => do
        let (propResult, st) ← validate st ⟨object ++ [n], propertyValue⟩ propertySpec
        let st := st.notePropertyEvaluation object propertyName
        if vStatusValid propResult.status then pure ([], st)
        else pure (propResult.exception.toList, st)
      | none => do
        let exceptions ← checkOther valueSpec st object propertyName
        pure (exceptions, st)
    let (more, st) ← validateProperties object (n + 1) properties st.pop
    return (exceptions ++ more, st)

/-- Both limits are taken from `minProperties`. -/
def checkPropertyCount (st : ValidatorState) (propertyCount : ℕ) : Exec (List ValidityException) := do
  let lim := valueSpec.minProperties
  let tooMany ←
    if valueSpec.hasFlag JS_VALIDATOR_MAX_PROPS && lim.toInt < propertyCount then do
      pure [makeValidityException (validityMessage [ascii "too many properties, ",
        formatD propertyCount, ascii " > MAX=", formatLow lim, ascii " at ",
        ← validatorAccessPath st.accessPath])]
    else pure []
  let tooFew ←
    if valueSpec.hasFlag JS_VALIDATOR_MIN_PROPS && propertyCount < lim.toInt then do
      pure [makeValidityException (validityMessage [ascii "too few properties, ",
        formatD propertyCount, ascii " < MIN=", formatLow lim, ascii " at ",
        ← validatorAccessPath st.accessPath])]
    else pure []
  return tooMany ++ tooFew

/-- The result of checks that left exceptions, or none. -/
def pendingResult (st : ValidatorState) (kind : String) (pending : List ValidityException) :
    Exec VResult := do
  if pending.isEmpty then return simpleSuccess
  else
    return failureWithException (validityMessage [ascii "Validity Exceptions(s) with ", ascii kind,
      ascii " at ", ← validatorAccessPath st.accessPath]) pending

def validateJSONObject (st : ValidatorState) (object : List ℕ) (properties : List (CString × Json)) :
    Exec (VResult × ValidatorState) := do
  let missing ← checkRequired st properties (valueSpec.required.getD [])
  let (invalid, st) ← validateProperties platform validate valueSpec object 0 properties st
  let count ← checkPropertyCount valueSpec st properties.length
  return (← pendingResult st "object" (missing ++ invalid ++ count), st)

end Objects

/-! Arrays -/

section Arrays

variable (platform : Platform) (validate : Validate) (valueSpec : JSValueSpec)

def checkItemCount (st : ValidatorState) (elementCount : ℕ) : Exec (List ValidityException) := do
  let tooMany ←
    if valueSpec.hasFlag JS_VALIDATOR_MAX_ITEMS && valueSpec.maxItems.toInt < elementCount then do
      pure [makeValidityException (validityMessage [ascii "too many array items, ",
        formatD elementCount, ascii " > MAX=", formatLow valueSpec.maxItems, ascii " at ",
        ← validatorAccessPath st.accessPath])]
    else pure []
  let tooFew ←
    if valueSpec.hasFlag JS_VALIDATOR_MIN_ITEMS && elementCount < valueSpec.minItems.toInt then do
      pure [makeValidityException (validityMessage [ascii "too few array items, ",
        formatD elementCount, ascii " < MIN=", formatLow valueSpec.minItems, ascii " at ",
        ← validatorAccessPath st.accessPath])]
    else pure []
  return tooMany ++ tooFew

def tableKey (longHash : BitVec 64) : BitVec 64 := longHash &&& 0x7FFFFFFFFFFFFFFF

/-- Whether there is another item with the same hash among those before, and all of them. -/
def checkUnique (st : ValidatorState) (uniquenessSet : List (BitVec 64)) (itemValue : Value) :
    Exec (List ValidityException × List (BitVec 64)) := do
  if valueSpec.uniqueItems then
    let key := tableKey (← jsonLongHash platform itemValue)
    let duplicate ←
      if key ∈ uniquenessSet then do
        pure [makeValidityException (validityMessage [
          ascii "array uniqueItems violation, duplicate at ", ← validatorAccessPath st.accessPath])]
      else pure []
    return (duplicate, key :: uniquenessSet)
  else return ([], uniquenessSet)

def validateItems (array : List ℕ) : ℕ → List Json → List (BitVec 64) → ValidatorState →
    Exec (List ValidityException × ValidatorState)
  | _, [], _, st => return ([], st)
  | i, item :: items, uniquenessSet, st => do
    let itemValue : Value := ⟨array ++ [i], item⟩
    let st := st.push (.index i)
    let (invalid, st) ←
      match valueSpec.itemSpec with
      | some itemSpec => do
        let (elementResult, st) ← validate st itemValue itemSpec
        if vStatusValid elementResult.status then pure ([], st)
        else pure (elementResult.exception.toList, st)
      | none => pure ([], st)
    let (duplicate, uniquenessSet) ← checkUnique platform valueSpec st uniquenessSet itemValue
    let (more, st) ← validateItems array (i + 1) items uniquenessSet st.pop
    return (invalid ++ duplicate ++ more, st)

def validateJSONArray (st : ValidatorState) (array : List ℕ) (elements : List Json) :
    Exec (VResult × ValidatorState) := do
  let count ← checkItemCount valueSpec st elements.length
  let (invalid, st) ← validateItems platform validate valueSpec array 0 elements [] st
  return (← pendingResult st "array" (count ++ invalid), st)

end Arrays

/-! Strings and numbers -/

section Scalars

variable (platform : Platform) (valueSpec : JSValueSpec) (st : ValidatorState)

/-- The length is an `int`. -/
def stringLength (s : CString) : BitVec 32 := BitVec.ofNat 32 s.strlen

def validateJSONString (s : CString) : Exec VResult := do
  let len := (stringLength s).toInt
  let tooLong ←
    if valueSpec.hasFlag JS_VALIDATOR_MAX_LENGTH && valueSpec.maxLength.toInt < len then do
      pure [makeValidityException (validityMessage [ascii "string too long (len=", formatD len,
        ascii ") '", s.bytes, ascii "' ", formatD len, ascii " > MAX=",
        formatLow valueSpec.maxLength, ascii " at ", ← validatorAccessPath st.accessPath])]
    else pure []
  let tooShort ←
    if valueSpec.hasFlag JS_VALIDATOR_MIN_LENGTH && len < valueSpec.minLength.toInt then do
      pure [makeValidityException (validityMessage [ascii "string too short (len=", formatD len,
        ascii ") '", s.bytes, ascii "' ", formatD len, ascii " < MIN=",
        formatLow valueSpec.minLength, ascii " at ", ← validatorAccessPath st.accessPath])]
    else pure []
  let noMatch ←
    match valueSpec.pattern with
    | some pattern =>
      if platform.regexComp pattern && (platform.regexExec pattern s).isNone then do
        pure [makeValidityException (validityMessage [ascii "string pattern match fail s='", s.bytes,
          ascii "', pat='", pattern.bytes, ascii "', at ", ← validatorAccessPath st.accessPath])]
      else pure []
    | none => pure []
  pendingResult st "string" (tooLong ++ tooShort ++ noMatch)

/-- What both kinds of numbers have in common: whether the number is too large or too small, and how
it and the bounds are printed, is different. -/
def checkBounds (number : List Byte) (tooLarge tooSmall : Exec Bool) (max min : Exec (List Byte)) :
    Exec (List ValidityException) := do
  let large ←
    if valueSpec.hasFlag JS_VALIDATOR_MAX then do
      if ← tooLarge then
        pure [makeValidityException (validityMessage [ascii "value too large, ", number, ascii " ",
          ascii (if valueSpec.exclusiveMaximum then ">=" else ">"), ascii " MAX=", ← max,
          ascii " at ", ← validatorAccessPath st.accessPath])]
      else pure []
    else pure []
  let small ←
    if valueSpec.hasFlag JS_VALIDATOR_MIN then do
      if ← tooSmall then
        pure [makeValidityException (validityMessage [ascii "value too small, ", number, ascii " ",
          ascii (if valueSpec.exclusiveMinimum then "<=" else "<"), ascii " MIN=", ← min,
          ascii " at ", ← validatorAccessPath st.accessPath])]
      else pure []
    else pure []
  return large ++ small

/-- A comparison to a NaN is false. -/
def validateJSONNumber (d : BitVec 64) : Exec VResult := do
  let max := valueSpec.maximum
  let min := valueSpec.minimum
  let pending ← checkBounds valueSpec st (formatF d)
    (return if valueSpec.exclusiveMaximum then Binary64.le max d else Binary64.lt max d)
    (return if valueSpec.exclusiveMinimum then Binary64.le d min else Binary64.lt d min)
    (return formatF max) (return formatF min)
  pendingResult st "number" pending

def validateJSONInteger (i : ℤ) : Exec VResult := do
  let max := doubleToInt64 valueSpec.maximum
  let min := doubleToInt64 valueSpec.minimum
  let pending ← checkBounds valueSpec st (formatD i)
    (do
      let lim ← max
      return if valueSpec.exclusiveMaximum then lim ≤ i else lim < i)
    (do
      let lim ← min
      return if valueSpec.exclusiveMinimum then i ≤ lim else i < lim)
    (do return formatD (← max)) (do return formatD (← min))
  pendingResult st "integer" pending

end Scalars

/-! References -/

section References

variable (platform : Platform) (validator : JsonValidator)

/-- A level, or the message that says that there is none; without a message, there is no level
either. -/
abbrev Resolved := Except (Option (List Byte)) ℕ

def unresolved (text : List (List Byte)) : Exec Resolved := return .error (some (validityMessage text))

def schemaName (spec : JSValueSpec) : List Byte :=
  match spec.id with
  | some id => id.bytes
  | none => ascii "<anonymous>"

def specAt (spec : ℕ) : Exec JSValueSpec :=
  match validator.specs[spec]? with
  | some valueSpec => return valueSpec
  | none => throw .undefinedBehaviour

def getTopSchemaByName (hostName fileName : List Byte) : Exec (Option ℕ) := do
  let key := ofBytes (hostName ++ 0x2F :: fileName)
  let top ← specAt validator validator.topSchema
  match top.definitions.bind fun definitionTable => htGet definitionTable key with
  | some schema => return some schema
  | none =>
    let ids ← validator.otherSchemas.mapM fun other => do return (other, (← specAt validator other).id)
    return (ids.find? fun other => other.2 = some key).map Prod.fst

def resolveCrossSchemaRef (referredTopSchema : ℕ) (ref : CString) (anchorMatch : Option (ℕ × ℕ)) :
    Exec Resolved := do
  let spec ← specAt validator referredTopSchema
  match anchorMatch with
  | none => return .ok referredTopSchema
  | some (rm_so, _) =>
    match spec.anchorTable with
    | none =>
      unresolved [ascii "schema '", schemaName spec, ascii "' does not define any anchors for ref '",
        ref.bytes, ascii "'"]
    | some anchorTable =>
      -- without the '#'
      match htGet anchorTable (ofBytes (ref.bytes.drop (rm_so + 1))) with
      | some resolved => return .ok resolved
      | none =>
        unresolved [ascii "anchor schema ref '", ref.bytes,
          ascii "' does not resolve in referred schema"]

/-- A reference to `$defs`, to a URL, to a file of the same host, or to an anchor. -/
def resolveRef (fuel : ℕ) (st : ValidatorState) (valueSpec : ℕ) (ref : CString) : Exec Resolved := do
  let containingSpec ← specAt validator (← getTopLevelAncestor validator.specs fuel valueSpec)
  let global :=
    if 10 ≤ ref.strlen && platform.regexComp httpPattern then platform.regexExec httpPattern ref
    else none
  let file :=
    if 1 ≤ ref.strlen && platform.regexComp filePattern then platform.regexExec filePattern ref
    else none
  if 8 ≤ ref.strlen ∧ ref.bytes.take 8 = ascii "#/$defs/" then
    match containingSpec.definitions with
    | none =>
      unresolved [ascii "schema '", schemaName containingSpec,
        ascii "' does not define shared '$defs'"]
    | some definitions =>
      match htGet definitions (ofBytes (ref.bytes.drop 8)) with
      | some resolved => return .ok resolved
      | none =>
        unresolved [ascii "path schema ref '", ref.bytes,
          ascii "' does not resolve against '$defs'"]
  else if let some groups := global then
    match ← getTopSchemaByName validator (matchText ref (groups[1]?.join))
      (matchText ref (groups[2]?.join)) with
    | none => unresolved [ascii "cross-domain schema not found for ref '", ref.bytes, ascii "'"]
    | some referred => resolveCrossSchemaRef validator referred ref (groups[3]?.join)
  else if let some groups := file then
    match containingSpec.hostName with
    | none => throw .undefinedBehaviour
    | some hostName =>
      match ← getTopSchemaByName validator hostName.bytes (matchText ref (groups[1]?.join)) with
      | none => unresolved [ascii "same-domain schema not found for ref '", ref.bytes, ascii "'"]
      | some referred => resolveCrossSchemaRef validator referred ref (groups[2]?.join)
  else if ref.bytes.head? = some 0x23 then
    match containingSpec.anchorTable with
    | none =>
      unresolved [ascii "schema '", schemaName containingSpec,
        ascii "' does not define any anchors for ref '", ref.bytes, ascii "'"]
    | some anchorTable =>
      match htGet anchorTable (ofBytes (ref.bytes.drop 1)) with
      | some resolved => return .ok resolved
      | none =>
        unresolved [ascii "anchor schema ref '", ref.bytes,
          ascii "' does not resolve in containing schema"]
  else
    unresolved [ascii "bad or unimplemented ref at '", ref.bytes, ascii "' at ",
      ← validatorAccessPath st.accessPath]

/-- The loop over references. -/
def followRefs (st : ValidatorState) : ℕ → ℕ → Exec Resolved
  | 0, _ => throw .nonTermination
  | fuel + 1, valueSpec => do
    match (← specAt validator valueSpec).ref with
    | none => return .ok valueSpec
    | some ref =>
      match ← resolveRef platform validator fuel st valueSpec ref with
      | .ok resolved => followRefs st fuel resolved
      | .error message => return .error message

end References

/-! One level -/

section Level

variable (platform : Platform) (validator : JsonValidator) (validate : Validate)

/-- Where null is not permitted but a string is, it is looked at as the empty string. -/
def validateJSONSimple (st : ValidatorState) (value : Value) (valueSpec : JSValueSpec) :
    Exec (VResult × ValidatorState) := do
  match value.json with
  | .scalar .null =>
    let typeResult ← validateType st JSTYPE_NULL valueSpec
    if vStatusValid typeResult.status then return (typeResult, st)
    else if validator.allowStringToBeNull then
      if valueSpec.permits JSTYPE_STRING then
        return (← validateJSONString platform valueSpec st (ofBytes []), st)
      else
        return (simpleFailure [ascii "string cannot be null for ",
          ← validatorAccessPath st.accessPath, [0x0A]], st)
    else return (typeResult, st)
  | .scalar (.boolean _) => return (← validateType st JSTYPE_BOOLEAN valueSpec, st)
  | .object properties =>
    let typeResult ← validateType st JSTYPE_OBJECT valueSpec
    if vStatusValid typeResult.status then
      validateJSONObject platform validate valueSpec st value.place properties
    else return (typeResult, st)
  | .array elements =>
    let typeResult ← validateType st JSTYPE_ARRAY valueSpec
    if vStatusValid typeResult.status then
      validateJSONArray platform validate valueSpec st value.place elements
    else return (typeResult, st)
  | .scalar (.string s) =>
    let typeResult ← validateType st JSTYPE_STRING valueSpec
    if vStatusValid typeResult.status then
      return (← validateJSONString platform valueSpec st s, st)
    else return (typeResult, st)
  | .scalar (.number n) =>
    let typeResult ← validateType st JSTYPE_NUMBER valueSpec
    if vStatusValid typeResult.status then
      return (← validateJSONNumber valueSpec st (intToDouble n.toInt), st)
    else return (typeResult, st)
  | .scalar (.double bits) =>
    let typeResult ← validateType st JSTYPE_NUMBER valueSpec
    if vStatusValid typeResult.status then return (← validateJSONNumber valueSpec st bits, st)
    else return (typeResult, st)
  | .scalar (.int64 n) =>
    let typeResult ← validateType st JSTYPE_INTEGER valueSpec
    if vStatusValid typeResult.status then return (← validateJSONInteger valueSpec st n.toInt, st)
    else return (typeResult, st)

inductive Quantifier
  | QUANT_ALL
  | QUANT_ANY
  | QUANT_ONE

/-- The loop over the sub-schemas. A second one that is valid goes to a message whose `%s` is given
an index. -/
def quantifierLoop (value : Value) (quantType : Quantifier) : ValidatorState → ℕ →
    List ValidityException → List ℕ → Exec (VResult × ValidatorState)
  | st, validCount, pending, [] =>
    match quantType with
    | .QUANT_ALL => return (simpleSuccess, st)
    | .QUANT_ANY => do
      return (failureWithException (validityMessage [ascii "not anyOf schemas at '",
        ← validatorAccessPath st.accessPath, ascii "' are valid"]) pending, st)
    | .QUANT_ONE => do
      if validCount = 0 then
        return (failureWithException (validityMessage [ascii "not oneOf schemas at '",
          ← validatorAccessPath st.accessPath, ascii "' are valid, 0 are"]) pending, st)
      else return (simpleSuccess, st)
  | st, validCount, pending, valueSpec :: valueSpecs => do
    let (eltResult, st) ← validate st value valueSpec
    let valid := vStatusValid eltResult.status
    let validCount := if valid then validCount + 1 else validCount
    let pending := if valid then pending else pending ++ eltResult.exception.toList
    match quantType with
    | .QUANT_ALL =>
      if valid then quantifierLoop value quantType st validCount pending valueSpecs
      else
        return (failureWithException (validityMessage [ascii "not allOf schemas at '",
          ← validatorAccessPath st.accessPath, ascii "' are valid"]) pending, st)
    | .QUANT_ANY =>
      if validCount > 0 then return (simpleSuccess, st)
      else quantifierLoop value quantType st validCount pending valueSpecs
    | .QUANT_ONE =>
      if validCount > 1 then throw .undefinedBehaviour
      else quantifierLoop value quantType st validCount pending valueSpecs

def validateQuantifiedSpecs (st : ValidatorState) (value : Value) (valueSpecs : Option (List ℕ))
    (quantType : Quantifier) : Exec (VResult × ValidatorState) :=
  match valueSpecs with
  | none => return (simpleSuccess, st)
  | some valueSpecs => quantifierLoop validate value quantType st 0 [] valueSpecs

def validateNot (st : ValidatorState) (value : Value) (valueSpec : JSValueSpec) :
    Exec (VResult × ValidatorState) :=
  match valueSpec.not with
  | none => return (simpleSuccess, st)
  | some notSpec => do
    let (subValidity, st) ← validate st value notSpec
    if vStatusValid subValidity.status then
      return (simpleFailure [ascii "negated schema at ", ← validatorAccessPath st.accessPath,
        ascii " is valid"], st)
    else return (simpleSuccess, st)

def validateConst (st : ValidatorState) (value : Value) (spec : ℕ) (valueSpec : JSValueSpec)
    (constValue : Json) : Exec VResult := do
  if jsonEquals platform value constValue spec 0 then return simpleSuccess
  else
    let path ← validatorAccessPath st.accessPath
    let expecting (text : List Byte) : VResult :=
      simpleFailure [ascii "unequal constant value at ", path, ascii "; expecting value '", text,
        ascii "' of type '", getJSTypeName valueSpec.type, ascii "'"]
    match constValue with
    | .scalar (.string s) => return expecting s.bytes
    | .scalar (.number n) => return expecting (formatD n.toInt)
    | .scalar (.int64 n) => return expecting (formatLow n)
    | .scalar (.double _) => return expecting (formatD 0)
    | _ => return simpleFailure [ascii "unequal constant value at ", path]

/-- The text of a value of an enumeration, if it has one. -/
def enumText : Json → List Byte
  | .scalar (.string s) => s.bytes
  | .scalar (.number n) => formatD n.toInt
  | .scalar (.int64 n) => formatLow n
  | .scalar (.double _) => formatD 0
  | _ => []

/-- The values in a buffer, whose size is taken from their number. -/
def enumLoop (value : Value) (spec size : ℕ) : ℕ → List Byte → List Json →
    Exec (Bool × List Byte)
  | _, validValues, [] => return (false, validValues)
  | ee, validValues, enumValue :: enumValues => do
    if jsonEquals platform value enumValue spec ee then return (true, validValues)
    let append (buffer text : List Byte) : Exec (List Byte) :=
      if buffer.length + text.length < size then return buffer ++ text
      else throw .undefinedBehaviour
    let validValues ← append validValues (enumText enumValue)
    let separator := if validValues ≠ [] ∧ enumValues ≠ [] then ascii ", " else []
    let validValues ← append validValues separator
    enumLoop value spec size (ee + 1) validValues enumValues

def validateEnum (st : ValidatorState) (value : Value) (spec : ℕ) (valueSpec : JSValueSpec)
    (enumeratedValues : List Json) : Exec VResult := do
  let whichValue ←
    match value.json with
    | .scalar .null => do
      let typeResult ← validateType st JSTYPE_NULL valueSpec
      if !vStatusValid typeResult.status && validator.allowStringToBeNull &&
          valueSpec.permits JSTYPE_STRING then
        pure { value with json := .scalar (.string (ofBytes [])) }
      else pure value
    | _ => pure value
  -- three more than a pointer for each value
  let validValuesMaxSize := enumeratedValues.length * (8 + 3) + 1
  let (matched, validValues) ←
    enumLoop platform whichValue spec validValuesMaxSize 0 [] enumeratedValues
  if matched then return simpleSuccess
  else
    let path ← validatorAccessPath st.accessPath
    if validValues ≠ [] then
      return simpleFailure [ascii "no matching enum value at ", path,
        ascii "; expecting one of values '[", validValues, ascii "]' of type '",
        getJSTypeName valueSpec.type, ascii "'"]
    else return simpleFailure [ascii "no matching enum value at ", path]

def failedExceptions (results : List VResult) : List ValidityException :=
  (results.filter fun r => !vStatusValid r.status).flatMap fun r => r.exception.toList

/-- All the quantifiers, and then the level itself. -/
def validateQuantifiers (st : ValidatorState) (value : Value) (valueSpec : JSValueSpec) :
    Exec (VResult × ValidatorState) := do
  let (allOfValidity, st) ← validateQuantifiedSpecs validate st value valueSpec.allOf .QUANT_ALL
  let (anyOfValidity, st) ← validateQuantifiedSpecs validate st value valueSpec.anyOf .QUANT_ANY
  let (oneOfValidity, st) ← validateQuantifiedSpecs validate st value valueSpec.oneOf .QUANT_ONE
  let (notValidity, st) ← validateNot validate st value valueSpec
  let (simpleValidity, st) ← validateJSONSimple platform validator validate st value valueSpec
  let totalValidity := vStatusMin allOfValidity.status (vStatusMin anyOfValidity.status
    (vStatusMin oneOfValidity.status (vStatusMin notValidity.status simpleValidity.status)))
  if totalValidity = .ValidContinue then return (simpleSuccess, st)
  else if valueSpec.allOf = none ∧ valueSpec.anyOf = none ∧ valueSpec.oneOf = none ∧
      valueSpec.not = none then return (simpleValidity, st)
  else
    -- the message is a format as well
    let format := validityMessage [ascii "Schema at '", ← validatorAccessPath st.accessPath,
      ascii "' invalid"]
    let message ← formatAlone format
    return (failureWithException (validityMessage [message]) (failedExceptions
      [allOfValidity, anyOfValidity, oneOfValidity, notValidity, simpleValidity]), st)

end Level

/-- A call gets an evaluation set of its own. -/
def validateJSON (platform : Platform) (validator : JsonValidator) : ℕ → Validate
  | 0, _, _, _ => throw .nonTermination
  | fuel + 1, st, value, spec => do
    let st := st.extendEvalSets
    match ← followRefs platform validator st fuel spec with
    | .error message => return (⟨.InvalidStop, some (.mk message [])⟩, st.leaveEvalSet)
    | .ok spec =>
      let valueSpec ← specAt validator spec
      match valueSpec.constValue, valueSpec.enumeratedValues with
      | some constValue, _ =>
        return (← validateConst platform st value spec valueSpec constValue, st.leaveEvalSet)
      | none, some enumeratedValues =>
        return (← validateEnum platform validator st value spec valueSpec enumeratedValues,
          st.leaveEvalSet)
      | none, none =>
        let (result, st) ← validateQuantifiers platform validator
          (validateJSON platform validator fuel) st value valueSpec
        return (result, st.leaveEvalSet)

def JSON_VALIDATOR_NO_EXCEPTIONS : ℕ := 0
def JSON_VALIDATOR_HAS_EXCEPTIONS : ℕ := 4

/-- The verdict, and the exception at the top. The path of a validator that is used again is where
the last validation left it. -/
def jsonValidateSchema (platform : Platform) (fuel : ℕ) (specs : List JSValueSpec) (topSchema : ℕ)
    (otherSchemas : List ℕ) (accessPath : AccessPath) (value : Json) :
    Exec (ℕ × Option ValidityException) := do
  let validator : JsonValidator := ⟨specs, topSchema, otherSchemas, true⟩
  let (validity, _) ← validateJSON platform validator fuel ⟨accessPath, []⟩ ⟨[], value⟩ topSchema
  if vStatusValid validity.status then return (JSON_VALIDATOR_NO_EXCEPTIONS, none)
  else return (JSON_VALIDATOR_HAS_EXCEPTIONS, validity.exception)

end JsonSchema
end ZoweCommon
