import ZoweCommon.Json.Builder
import ZoweCommon.Json.Printer

/-! From a YAML document, as the loader returns it, to JSON. Off z/OS `convertToNative` changes
nothing. -/
namespace ZoweCommon

open CLibrary CString

inductive YamlScalarStyle
  | YAML_ANY_SCALAR_STYLE
  | YAML_PLAIN_SCALAR_STYLE
  | YAML_SINGLE_QUOTED_SCALAR_STYLE
  | YAML_DOUBLE_QUOTED_SCALAR_STYLE
  | YAML_LITERAL_SCALAR_STYLE
  | YAML_FOLDED_SCALAR_STYLE
  deriving DecidableEq

/-- The items of a sequence and the pairs of a mapping are indices into the document. -/
inductive YamlNode
  | noNode
  | scalar (tag : CString) (value : List Byte) (style : YamlScalarStyle)
  | sequence (items : List ℤ)
  | mapping (pairs : List (ℤ × ℤ))
  deriving DecidableEq

structure YamlDocument where
  nodes : List YamlNode

def yaml_document_get_node (doc : YamlDocument) (index : ℤ) : Option YamlNode :=
  if index > 0 then doc.nodes[(index - 1).toNat]? else none

def yaml_document_get_root_node (doc : YamlDocument) : Option YamlNode := doc.nodes[0]?

def YAML_NULL_TAG : CString := ofBytes (ascii "tag:yaml.org,2002:null")
def YAML_BOOL_TAG : CString := ofBytes (ascii "tag:yaml.org,2002:bool")
def YAML_STR_TAG : CString := ofBytes (ascii "tag:yaml.org,2002:str")
def YAML_INT_TAG : CString := ofBytes (ascii "tag:yaml.org,2002:int")
def YAML_FLOAT_TAG : CString := ofBytes (ascii "tag:yaml.org,2002:float")
def YAML_TIMESTAMP_TAG : CString := ofBytes (ascii "tag:yaml.org,2002:timestamp")
def YAML_SEQ_TAG : CString := ofBytes (ascii "tag:yaml.org,2002:seq")
def YAML_MAP_TAG : CString := ofBytes (ascii "tag:yaml.org,2002:map")

def MAX_JSON_KEY : ℕ := 256

def MAX_JSON_STRING : ℕ := 65536

def isDecimal (c : Byte) : Bool := 0x30 ≤ c.toNat && c.toNat ≤ 0x39

def isSyntacticallyInteger (data : List Byte) : Bool :=
  if data.length = 0 then false else data.all isDecimal

def isTrue (data : List Byte) : Bool :=
  data = ascii "true" || data = ascii "True" || data = ascii "TRUE"

def isFalse (data : List Byte) : Bool :=
  data = ascii "false" || data = ascii "False" || data = ascii "FALSE"

def isSyntacticallyBool (data : List Byte) : Bool := isTrue data || isFalse data

def isSyntacticallyNull (data : List Byte) : Bool :=
  data.length = 0 || data = ascii "~" || data = ascii "null" || data = ascii "Null" ||
    data = ascii "NULL"

def isSyntacticallyTemplate (data : List Byte) : Bool :=
  (strstr (ofBytes data).bytes (ascii "$\x7b\x7b")).isSome

/-- The value, with its digits read one by one, and whether there is nothing else. A value that no
64-bit integer holds has no meaning. -/
def readInt (data : List Byte) : Exec (BitVec 64 × Bool) := do
  let val64 ← data.foldlM (fun (val64 : ℤ) c =>
    if isDecimal c then
      let next := 10 * val64 + (c.toNat - 0x30)
      if next < 2 ^ 63 then (return next : Exec ℤ) else throw .undefinedBehaviour
    else return val64) 0
  return (BitVec.ofInt 64 val64, data.all isDecimal)

/-- The value, and whether it is valid. -/
def readBool (data : List Byte) : Bool × Bool :=
  if isTrue data then (true, true) else if isFalse data then (false, true) else (false, false)

def JSON_FAIL_NOT_HANDLED : ℕ := 100
def JSON_FAIL_BAD_INTEGER : ℕ := 104
def JSON_FAIL_BAD_BOOL : ℕ := 108
def JSON_FAIL_BAD_TEMPLATE : ℕ := 116

def ZOWE_INTERNAL_TYPE : CString := ofBytes (ascii "__zowe_internal_type__")

def ZOWE_UNEVALUATED : CString := ofBytes (ascii "unevaluated")

open JsonPrinter

def addPlusIfNecessary (p : JsonPrinter) (first : Bool) : JsonPrinter :=
  if first then p else p.jsonWriteParseably (ascii " + ") false false

/-- The printer with the source of a template, or the status. Between the braces stand
expressions, and what is outside of them is quoted. -/
def templateSource (p : JsonPrinter) (first : Bool) (tail : List Byte) : Except ℕ JsonPrinter :=
  match _h : strstr tail (ascii "$\x7b\x7b") with
  | some nextExpr =>
    let (p, first) :=
      if nextExpr > 0 then
        ((addPlusIfNecessary p first).jsonWriteParseably (tail.take nextExpr) true false, false)
      else (p, first)
    match strstr (tail.drop nextExpr) (ascii "\x7d\x7d") with
    | some stop =>
      let p := addPlusIfNecessary p first
      let exprText := ((tail.drop nextExpr).take stop).drop 3
      templateSource (p.jsonWriteParseably exprText false false) false
        (tail.drop (nextExpr + stop + 2))
    | none => .error JSON_FAIL_BAD_TEMPLATE
  | none =>
    if tail.length > 0 then .ok ((addPlusIfNecessary p first).jsonWriteParseably tail true false)
    else .ok p
termination_by tail.length
decreasing_by
  have hlength := strstr_le _h
  have hneedle : (ascii "$\x7b\x7b").length = 3 := rfl
  rw [List.length_drop]
  omega

/-- The string ends where the text did. There must be room for the terminator. -/
def jsonBufferTerminateString (buf : JsonBuffer) : Exec JsonBuffer :=
  if h : buf.data.length + 1 ≤ buf.size then return buf.append [0] h else throw .undefinedBehaviour

def buildTemplateJSON (b : JsonBuilder) (parent : Option ℕ) (parentKey : Option CString)
    (nativeValue : List Byte) : Exec (ℕ × JsonBuilder) :=
  match templateSource (makeBufferJsonPrinter makeJsonBuffer) true (ofBytes nativeValue).bytes with
  | .error status => return (status, b)
  | .ok p => do
    let (object, status, b) ← b.jsonBuildObject parent parentKey
    if status ≠ 0 then return (status, b)
    let (_, status, b) ← b.jsonBuildString object (some ZOWE_INTERNAL_TYPE) ZOWE_UNEVALUATED.bytes
    if status ≠ 0 then return (status, b)
    let buffer ← jsonBufferTerminateString p.customObject
    let (_, status, b) ← b.jsonBuildString object (some (ofBytes (ascii "source"))) buffer.data
    return (status, b)

/-- A scalar: its value, if one was built, and the status. Whatever its style, a tag decides; a
plain scalar with the default tag is looked at. -/
def scalar2JSON (b : JsonBuilder) (parent : Option ℕ) (parentKey : Option CString) (tag : CString)
    (value : List Byte) (style : YamlScalarStyle) : Exec (Option ℕ × ℕ × JsonBuilder) := do
  let nativeValue := value.take MAX_JSON_STRING
  let plain := tag = YAML_STR_TAG ∧ style = .YAML_PLAIN_SCALAR_STYLE
  if tag = YAML_NULL_TAG ∨ plain ∧ isSyntacticallyNull nativeValue then
    b.jsonBuildNull parent parentKey
  else if tag = YAML_INT_TAG ∨ plain ∧ isSyntacticallyInteger nativeValue then
    let (x, valid) ← readInt nativeValue
    if valid then b.jsonBuildInt64 parent parentKey x
    else return (none, JSON_FAIL_BAD_INTEGER, b)
  else if tag = YAML_BOOL_TAG ∨ plain ∧ isSyntacticallyBool nativeValue then
    let (x, valid) := readBool nativeValue
    if valid then b.jsonBuildBool parent parentKey x
    else return (none, JSON_FAIL_BAD_BOOL, b)
  else if tag = YAML_STR_TAG then
    if style = .YAML_PLAIN_SCALAR_STYLE ∧ isSyntacticallyTemplate nativeValue then
      let (status, b) ← buildTemplateJSON b parent parentKey nativeValue
      return (none, status, b)
    else if style = .YAML_SINGLE_QUOTED_SCALAR_STYLE ∧ isSyntacticallyTemplate nativeValue then
      return (none, JSON_FAIL_NOT_HANDLED, b)
    else if style = .YAML_DOUBLE_QUOTED_SCALAR_STYLE ∧ isSyntacticallyTemplate nativeValue then
      let (status, b) ← buildTemplateJSON b parent parentKey nativeValue
      return (none, status, b)
    else b.jsonBuildString parent parentKey nativeValue
  else if tag = YAML_FLOAT_TAG then return (none, JSON_FAIL_NOT_HANDLED, b)
  else if tag = YAML_TIMESTAMP_TAG then return (none, JSON_FAIL_NOT_HANDLED, b)
  else return (none, 0, b)

def jsonBuildKey (key : List Byte) : CString := ofBytes key

/-- The key of a pair, unless it is missing, no scalar or too long. The length of a key is an
`int`; there is no copying of a negative number of bytes. -/
def pairKey (doc : YamlDocument) (index : ℤ) : Exec (Option CString) :=
  match yaml_document_get_node doc index with
  | some (.scalar _ value _) =>
    let keyLength := (BitVec.ofNat 32 value.length).toInt
    if keyLength > MAX_JSON_KEY then return none
    else if keyLength < 0 then throw .undefinedBehaviour
    else return some (jsonBuildKey (value.take keyLength.toNat))
  | _ => return none

/-- The value that was built, or a null pointer. What cannot be converted is left out with a
warning. -/
def yaml2JSON1 (doc : YamlDocument) : ℕ → JsonBuilder → Option ℕ → Option CString → YamlNode →
    Exec (Option ℕ × JsonBuilder)
  | 0, _, _, _, _ => throw .nonTermination
  | fuel + 1, b, parent, parentKey, node =>
    match node with
    | .noNode => return (none, b)
    | .scalar tag value style => do
      let (scalar, _, b) ← scalar2JSON b parent parentKey tag value style
      return (scalar, b)
    | .sequence items => do
      match ← b.jsonBuildArray parent parentKey with
      | (none, _, b) => return (none, b)
      | (some jsonArray, _, b) =>
        let b ← items.foldlM (fun b item =>
          match yaml_document_get_node doc item with
          | some nextNode => do
            return (← yaml2JSON1 doc fuel b (some jsonArray) none nextNode).2
          | none => return b) b
        return (some jsonArray, b)
    | .mapping pairs => do
      match ← b.jsonBuildObject parent parentKey with
      | (none, _, b) => return (none, b)
      | (some jsonObject, _, b) =>
        let b ← pairs.foldlM (fun b pair => do
          match ← pairKey doc pair.1 with
          | some keyNative =>
            match yaml_document_get_node doc pair.2 with
            | some valueNode => do
              return (← yaml2JSON1 doc fuel b (some jsonObject) (some keyNative) valueNode).2
            | none => return b
          | none => return b) b
        return (some jsonObject, b)

/-- The tree, or a null pointer, in the memory that held others before. -/
def yaml2JSON (fuel : ℕ) (heap : List JsonNode) (document : YamlDocument) :
    Exec (Option ℕ × List JsonNode) :=
  match yaml_document_get_root_node document with
  | some root => do
    let (json, builder) ← yaml2JSON1 document fuel ⟨heap, none⟩ none none root
    return (json, builder.heap)
  | none => throw .undefinedBehaviour

end ZoweCommon
