import ZoweCommon.Json.Merge
import ZoweCommon.Yaml.Reader

/-! The templates in a configuration: what JavaScript makes of them goes in their places. Off z/OS
`convertToNative` and `convertFromNative` change nothing. -/
namespace ZoweCommon

open CString

/-- A value as far as it is looked at. Of a string there are the bytes of its C string, if that can
be had; `other` stands for everything that is none of these, also for an exception. -/
inductive JSValue
  | undefined
  | symbol
  | int (n : BitVec 32)
  | float64 (bits : BitVec 64)
  | bool (b : Bool)
  | string (s : Option (List Byte))
  | null
  | array (elements : List JSValue)
  | object (properties : List (List Byte × JSValue))
  | unlistable
  | other

/-- What the engine makes of a source when the global properties are these, or none if the
evaluation fails. -/
abbrev JavaScript := CString → List (CString × Json) → Option JSValue

def SOURCE : CString := ofBytes (ascii "source")

mutual

/-- The value that was built, or a null pointer. The length of an array is an `int`. -/
def jsToJson1 (b : JsonBuilder) (parent : Option ℕ) (parentKey : Option CString) :
    JSValue → Exec (Option ℕ × JsonBuilder)
  | .undefined => return (none, b)
  | .symbol => return (none, b)
  | .int n => do
    let (json, _, b) ← b.jsonBuildInt64 parent parentKey (n.signExtend 64)
    return (json, b)
  | .float64 bits => do
    let (json, _, b) ← b.jsonBuildDouble parent parentKey bits
    return (json, b)
  | .bool truthValue => do
    let (json, _, b) ← b.jsonBuildBool parent parentKey truthValue
    return (json, b)
  | .string none => return (none, b)
  | .string (some str) => do
    let (json, _, b) ← b.jsonBuildString parent parentKey str
    return (json, b)
  | .null => do
    let (json, _, b) ← b.jsonBuildNull parent parentKey
    return (json, b)
  | .array elements => do
    let (jsonArray, _, b) ← b.jsonBuildArray parent parentKey
    let aLen := (BitVec.ofNat 32 elements.length).toInt
    let b ← elementsToJson b jsonArray aLen.toNat elements
    return (jsonArray, b)
  | .object properties => do
    let (jsonObject, _, b) ← b.jsonBuildObject parent parentKey
    let b ← propertiesToJson b jsonObject properties
    return (jsonObject, b)
  | .unlistable => do
    let (_, _, b) ← b.jsonBuildObject parent parentKey
    return (none, b)
  | .other => return (none, b)

def elementsToJson (b : JsonBuilder) (jsonArray : Option ℕ) : ℕ → List JSValue → Exec JsonBuilder
  | 0, _ => return b
  | _ + 1, [] => return b
  | count + 1, element :: elements => do
    let (_, b) ← jsToJson1 b jsonArray none element
    elementsToJson b jsonArray count elements

def propertiesToJson (b : JsonBuilder) (jsonObject : Option ℕ) :
    List (List Byte × JSValue) → Exec JsonBuilder
  | [] => return b
  | (name, value) :: properties => do
    let (_, b) ← jsToJson1 b jsonObject (some (ofBytes name)) value
    propertiesToJson b jsonObject properties

end

/-- What is in memory at an address, as the engine is given it. -/
def jsonToJS1 (heap : List JsonNode) : ℕ → ℕ → Exec Json
  | 0, _ => throw .nonTermination
  | fuel + 1, json => do
    match ← (⟨heap, none⟩ : JsonBuilder).node json with
    | .scalar s => return .scalar s
    | .object ps => do
      let props ← ps.mapM fun p => do
        let value ← jsonToJS1 heap fuel p.2
        return (p.1, value)
      return .object props
    | .array es => do
      let items ← es.mapM fun e => jsonToJS1 heap fuel e
      return .array items

def isZoweUnevaluated (heap : List JsonNode) (json : ℕ) : Exec Bool := do
  match ← (⟨heap, none⟩ : JsonBuilder).node json with
  | .object ps =>
    match JsonBuilder.jsonObjectGetPropertyValue ps ZOWE_INTERNAL_TYPE with
    | some propertyValue =>
      match ← (⟨heap, none⟩ : JsonBuilder).node propertyValue with
      | .scalar (.string s) => return s = ZOWE_UNEVALUATED
      | _ => return false
    | none => return false
  | _ => return false

/-- Where a value is in its parent. -/
inductive Place
  | property (key : CString)
  | element (index : ℕ)

def setJsonProperty (key : CString) (value : ℕ) : List (CString × ℕ) → List (CString × ℕ)
  | [] => []
  | p :: ps => if p.1 = key then (p.1, value) :: ps else p :: setJsonProperty key value ps

def setJsonArrayElement (index value : ℕ) (es : List ℕ) : Exec (List ℕ) :=
  if index < es.length then return es.set index value else throw .undefinedBehaviour

def setInParent (heap : List JsonNode) (parent : ℕ) (place : Place) (value : ℕ) :
    Exec (List JsonNode) := do
  match ← (⟨heap, none⟩ : JsonBuilder).node parent, place with
  | .object ps, .property key => return heap.set parent (.object (setJsonProperty key value ps))
  | .array es, .element index => do
    let es ← setJsonArrayElement index value es
    return heap.set parent (.array es)
  | _, _ => throw .undefinedBehaviour

/-- The properties of the whole configuration, which are global ones in a template. -/
def globalProperties (heap : List JsonNode) (fuel topJson : ℕ) : Exec (List (CString × Json)) := do
  match ← (⟨heap, none⟩ : JsonBuilder).node topJson with
  | .object ps => ps.mapM fun p => do
    let value ← jsonToJS1 heap fuel p.2
    return (p.1, value)
  | _ => throw .undefinedBehaviour

/-- Whether the parts of the value are to be visited, and the memory. What fails leaves the template
where it is. -/
def evaluationVisitor (js : JavaScript) (fuel topJson : ℕ) (heap : List JsonNode)
    (json parent : ℕ) (place : Place) : Exec (Bool × List JsonNode) := do
  if ← isZoweUnevaluated heap json then
    let globals ← globalProperties heap fuel topJson
    match ← (⟨heap, none⟩ : JsonBuilder).node json with
    | .object ps =>
      match JsonBuilder.jsonObjectGetPropertyValue ps SOURCE with
      | none => return (false, heap)
      | some sourceValue =>
        match ← (⟨heap, none⟩ : JsonBuilder).node sourceValue with
        | .scalar (.string source) =>
          match js source globals with
          | none => return (false, heap)
          | some output => do
            let (evaluationResult, b) ← jsToJson1 ⟨heap, none⟩ none none output
            match evaluationResult with
            | none => return (false, b.heap)
            | some evaluationResult => do
              let heap ← setInParent b.heap parent place evaluationResult
              return (false, heap)
        | _ => throw .undefinedBehaviour
    | _ => throw .undefinedBehaviour
  else return (true, heap)

/-- The memory after a visit of all that is below a value; the visitor leaves alone what has no
parts. A value can only be set by the visit to it. -/
def visitJSON (js : JavaScript) (topJson : ℕ) : ℕ → List JsonNode → ℕ → Exec (List JsonNode)
  | 0, _, _ => throw .nonTermination
  | fuel + 1, heap, json => do
    match ← (⟨heap, none⟩ : JsonBuilder).node json with
    | .scalar _ => return heap
    | .object ps =>
      ps.foldlM (fun heap p => do
        let (shouldVisitChildren, heap) ←
          evaluationVisitor js fuel topJson heap p.2 json (.property p.1)
        if shouldVisitChildren then visitJSON js topJson fuel heap p.2 else return heap) heap
    | .array es =>
      es.zipIdx.foldlM (fun heap e => do
        let (shouldVisitChildren, heap) ←
          evaluationVisitor js fuel topJson heap e.1 json (.element e.2)
        if shouldVisitChildren then visitJSON js topJson fuel heap e.1 else return heap) heap

/-- The configuration with its templates evaluated, or a null pointer; and the memory. -/
def evaluateJsonTemplates (js : JavaScript) (fuel : ℕ) (heap : List JsonNode) (json : ℕ) :
    Exec (Option ℕ × List JsonNode) := do
  match ← (⟨heap, none⟩ : JsonBuilder).node json with
  | .object _ =>
    let heap ← visitJSON js json fuel heap json
    return (some json, heap)
  | _ => return (none, heap)

end ZoweCommon
