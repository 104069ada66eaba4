import ZoweCommon.Basic.Exec
import ZoweCommon.Yaml.Reader

/-! From JSON to the events that a YAML emitter takes. Off z/OS `convertFromNative` changes
nothing. -/
namespace ZoweCommon

open CLibrary CString

/-- The events, with the arguments of their initialisers. -/
inductive YamlEvent
  | streamStart
  | streamEnd
  | documentStart (implicit : Bool)
  | documentEnd (implicit : Bool)
  | scalar (tag : CString) (value : List Byte) (plainImplicit quotedImplicit : Bool)
      (style : YamlScalarStyle)
  | sequenceStart (tag : CString) (implicit : Bool)
  | sequenceEnd
  | mappingStart (tag : CString) (implicit : Bool)
  | mappingEnd
  deriving DecidableEq

def YAML_SUCCESS : ℕ := 0

def YAML_GENERAL_FAILURE : ℕ := 12

def MAX_ACCESS_PATH : ℕ := 1024

/-- What `sprintf` leaves in a buffer of that many characters. -/
def scalarBuffer (text : List Byte) : Exec (List Byte) :=
  if text.length < MAX_ACCESS_PATH then return text else throw .undefinedBehaviour

section

variable {σ : Type} (yaml_emitter_emit : YamlEvent → σ → Bool × σ)

/-- One event, and the status if the emitter does not take it. -/
def emitEvent (emitter : σ) (event : YamlEvent) (failure : ℕ) : ℕ × σ :=
  let (accepted, emitter) := yaml_emitter_emit event emitter
  (if accepted then YAML_SUCCESS else YAML_GENERAL_FAILURE + failure, emitter)

/-- The tag is not used: all scalars have the tag of strings, and it is left out. -/
def emitScalar (emitter : σ) (scalar : List Byte) (_tag : CString) (style : YamlScalarStyle) : ℕ × σ :=
  emitEvent yaml_emitter_emit emitter (.scalar YAML_STR_TAG scalar true true style) 1

mutual

def writeJsonAsYaml1 (emitter : σ) : Json → Exec (ℕ × σ)
  | .array elements => do
    let (status, emitter) := emitEvent yaml_emitter_emit emitter (.sequenceStart YAML_SEQ_TAG true) 2
    if status ≠ 0 then return (status, emitter)
    let (subStatus, emitter) ← writeElements emitter elements
    if subStatus ≠ 0 then return (subStatus, emitter)
    return emitEvent yaml_emitter_emit emitter .sequenceEnd 3
  | .object properties => do
    let (status, emitter) := emitEvent yaml_emitter_emit emitter (.mappingStart YAML_MAP_TAG true) 4
    if status ≠ 0 then return (status, emitter)
    let (subStatus, emitter) ← writeProperties emitter properties
    if subStatus ≠ 0 then return (subStatus, emitter)
    return emitEvent yaml_emitter_emit emitter .mappingEnd 6
  | .scalar (.int64 n) => do
    let text ← scalarBuffer (formatD n.toInt)
    return emitScalar yaml_emitter_emit emitter text YAML_INT_TAG .YAML_PLAIN_SCALAR_STYLE
  | .scalar (.double d) => do
    let text ← scalarBuffer (formatF d)
    return emitScalar yaml_emitter_emit emitter text YAML_FLOAT_TAG .YAML_PLAIN_SCALAR_STYLE
  | .scalar (.number n) => do
    let text ← scalarBuffer (formatD n.toInt)
    return emitScalar yaml_emitter_emit emitter text YAML_INT_TAG .YAML_PLAIN_SCALAR_STYLE
  | .scalar (.string s) => do
    let text ← scalarBuffer s.bytes
    return emitScalar yaml_emitter_emit emitter text YAML_STR_TAG .YAML_DOUBLE_QUOTED_SCALAR_STYLE
  | .scalar (.boolean b) =>
    return emitScalar yaml_emitter_emit emitter (if b then ascii "true" else ascii "false")
      YAML_BOOL_TAG .YAML_PLAIN_SCALAR_STYLE
  | .scalar .null =>
    return emitScalar yaml_emitter_emit emitter (ascii "null") YAML_NULL_TAG .YAML_PLAIN_SCALAR_STYLE

/-- The loop over the elements. -/
def writeElements (emitter : σ) : List Json → Exec (ℕ × σ)
  | [] => return (YAML_SUCCESS, emitter)
  | itemValue :: elements => do
    let (subStatus, emitter) ← writeJsonAsYaml1 emitter itemValue
    if subStatus ≠ 0 then return (subStatus, emitter)
    writeElements emitter elements

/-- The loop over the properties. -/
def writeProperties (emitter : σ) : List (CString × Json) → Exec (ℕ × σ)
  | [] => return (YAML_SUCCESS, emitter)
  | (propertyName, propertyValue) :: properties => do
    let (status, emitter) := emitEvent yaml_emitter_emit emitter
      (.scalar YAML_STR_TAG propertyName.bytes true false .YAML_PLAIN_SCALAR_STYLE) 5
    if status ≠ 0 then return (status, emitter)
    let (subStatus, emitter) ← writeJsonAsYaml1 emitter propertyValue
    if subStatus ≠ 0 then return (subStatus, emitter)
    writeProperties emitter properties

end

/-- A whole stream with one document. All failures have one status. -/
def emitYaml (emitter : σ) (json : Json) : Exec (ℕ × σ) := do
  let failure := YAML_GENERAL_FAILURE + 8
  let (status, emitter) := emitEvent yaml_emitter_emit emitter .streamStart 8
  if status ≠ 0 then return (failure, emitter)
  let (status, emitter) := emitEvent yaml_emitter_emit emitter (.documentStart false) 8
  if status ≠ 0 then return (failure, emitter)
  let (status, emitter) ← writeJsonAsYaml1 yaml_emitter_emit emitter json
  if status ≠ 0 then return (failure, emitter)
  let (status, emitter) := emitEvent yaml_emitter_emit emitter (.documentEnd false) 8
  if status ≠ 0 then return (failure, emitter)
  let (status, emitter) := emitEvent yaml_emitter_emit emitter .streamEnd 8
  if status ≠ 0 then return (failure, emitter)
  return (YAML_SUCCESS, emitter)

end

end ZoweCommon
