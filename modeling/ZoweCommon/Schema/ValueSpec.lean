import ZoweCommon.Basic.CLibrary
import ZoweCommon.Json.Tree

/-! What a schema is compiled to. An address is an index into the memory of the schemas. -/
namespace ZoweCommon
namespace JsonSchema

open CString

def JSTYPE_NULL : ℕ := 0
def JSTYPE_BOOLEAN : ℕ := 1
def JSTYPE_OBJECT : ℕ := 2
def JSTYPE_ARRAY : ℕ := 3
def JSTYPE_STRING : ℕ := 4
def JSTYPE_NUMBER : ℕ := 5
def JSTYPE_INTEGER : ℕ := 6

def getJSTypeName (type : ℕ) : List Byte :=
  if type = JSTYPE_NULL then ascii "null"
  else if type = JSTYPE_BOOLEAN then ascii "boolean"
  else if type = JSTYPE_OBJECT then ascii "object"
  else if type = JSTYPE_ARRAY then ascii "array"
  else if type = JSTYPE_STRING then ascii "string"
  else if type = JSTYPE_NUMBER then ascii "number"
  else if type = JSTYPE_INTEGER then ascii "integer"
  else ascii "unknown"

def JS_VALIDATOR_MULTOF : BitVec 64 := 0x00000001
def JS_VALIDATOR_MAX : BitVec 64 := 0x00000002
def JS_VALIDATOR_MIN : BitVec 64 := 0x00000004
def JS_VALIDATOR_MAX_CONTAINS : BitVec 64 := 0x00000008
def JS_VALIDATOR_MIN_CONTAINS : BitVec 64 := 0x00000010
def JS_VALIDATOR_MAX_ITEMS : BitVec 64 := 0x00000020
def JS_VALIDATOR_MIN_ITEMS : BitVec 64 := 0x00000040
def JS_VALIDATOR_MAX_PROPS : BitVec 64 := 0x00000080
def JS_VALIDATOR_MIN_PROPS : BitVec 64 := 0x00000100
def JS_VALIDATOR_MAX_LENGTH : BitVec 64 := 0x00000200
def JS_VALIDATOR_MIN_LENGTH : BitVec 64 := 0x00000400

/-- What the hash tables with strings for keys do. -/
abbrev StringTable (α : Type) := List (CString × α)

def htGet {α : Type} (table : StringTable α) (key : CString) : Option α :=
  (table.find? fun entry => entry.1 = key).map Prod.snd

/-- A value that is there already is replaced. -/
def htPut {α : Type} (table : StringTable α) (key : CString) (value : α) : StringTable α :=
  table.filter (fun entry => entry.1 ≠ key) ++ [(key, value)]

/-- Sub-schemas are addresses, doubles are kept as their bit patterns. -/
structure JSValueSpec where
  typeMask : BitVec 32 := 0
  type : ℕ := 0
  enumeratedValues : Option (List Json) := none
  constValue : Option Json := none
  id : Option CString := none
  hostName : Option CString := none
  fileName : Option CString := none
  anchor : Option CString := none
  ref : Option CString := none
  definitions : Option (StringTable ℕ) := none
  allOf : Option (List ℕ) := none
  anyOf : Option (List ℕ) := none
  oneOf : Option (List ℕ) := none
  not : Option ℕ := none
  validatorFlags : BitVec 64 := 0
  anchorTable : Option (StringTable ℕ) := none
  minimum : BitVec 64 := 0
  maximum : BitVec 64 := 0
  minContains : BitVec 64 := 0
  maxContains : BitVec 64 := 0
  minItems : BitVec 64 := 0
  maxItems : BitVec 64 := 0
  minProperties : BitVec 64 := 0
  maxProperties : BitVec 64 := 0
  required : Option (List CString) := none
  properties : Option (StringTable ℕ) := none
  additionalProperties : Bool := false
  unevaluatedProperties : Bool := false
  patternProperties : List (CString × ℕ) := []
  exclusiveMaximum : Bool := false
  exclusiveMinimum : Bool := false
  multipleOf : BitVec 64 := 0
  itemSpec : Option ℕ := none
  uniqueItems : Bool := false
  minLength : BitVec 64 := 0
  maxLength : BitVec 64 := 0
  pattern : Option CString := none
  parent : Option ℕ := none

/-- Whether a type is among those that are permitted. -/
def JSValueSpec.permits (spec : JSValueSpec) (typeCode : ℕ) : Bool :=
  ((1 : BitVec 32) <<< typeCode) &&& spec.typeMask ≠ 0

def JSValueSpec.hasFlag (spec : JSValueSpec) (flag : BitVec 64) : Bool :=
  spec.validatorFlags &&& flag ≠ 0

/-- A match: where the whole of the pattern and each of its groups was found, if it was. -/
abbrev Matches := List (Option (ℕ × ℕ))

/-- What comes from outside: regular expressions, the addresses of values by their places, whether
the bytes that no field sets agree in a value and one of a schema, and what the memory of a value
shows when it is printed as text. -/
structure Platform where
  regexComp : CString → Bool
  regexExec : CString → CString → Option Matches
  address : List ℕ → BitVec 64
  sameUnsetBytes : List ℕ → ℕ → ℕ → Bool
  valueAsText : Json → List Byte

/-- The text between the ends of a group. -/
def matchText (s : CString) (m : Option (ℕ × ℕ)) : List Byte :=
  match m with
  | some (rm_so, rm_eo) => (s.bytes.take rm_eo).drop rm_so
  | none => []

def httpPattern : CString := ofBytes (ascii "^(https?://[^/]+)/([^#]*)(#.*)?$")

def filePattern : CString := ofBytes (ascii "^/([^#]*)(#.*)?$")

/-- Up the parents as far as one that has an `$id` or no parent. -/
def getTopLevelAncestor (specs : List JSValueSpec) : ℕ → ℕ → Exec ℕ
  | 0, _ => throw .nonTermination
  | fuel + 1, ancestor =>
    match specs[ancestor]? with
    | none => throw .undefinedBehaviour
    | some spec =>
      match spec.parent with
      | none => return ancestor
      | some parent =>
        if spec.id.isSome then return ancestor else getTopLevelAncestor specs fuel parent

end JsonSchema
end ZoweCommon
