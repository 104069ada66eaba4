import ZoweCommon.Basic.Exec
import ZoweCommon.Json.Tree

/-! JSON in memory and the `JsonBuilder` that grows it. An address is an index into the
allocations of a short-lived heap, which are never given back one by one. -/
namespace ZoweCommon

inductive JsonNode
  | scalar (s : JsonScalar)
  | object (properties : List (CString × ℕ))
  | array (elements : List ℕ)
  deriving DecidableEq

structure JsonBuilder where
  heap : List JsonNode
  root : Option ℕ

def JSON_BUILD_FAIL_PARENT_IS_SCALAR : ℕ := 12
def JSON_BUILD_FAIL_KEY_ON_ARRAY : ℕ := 16
def JSON_BUILD_FAIL_KEY_ON_ROOT : ℕ := 20
def JSON_BUILD_FAIL_NO_KEY_ON_OBJECT : ℕ := 24

/-- Where a new value goes, or the error code that says why it cannot go anywhere. -/
inductive LValueStatus
  | addToRoot
  | addToObject
  | addToArray
  | fail (errorCode : ℕ)

namespace JsonBuilder

def node (b : JsonBuilder) (json : ℕ) : Exec JsonNode :=
  match b.heap[json]? with
  | some node => return node
  | none => throw .undefinedBehaviour

def checkParentLValue (b : JsonBuilder) :
    Option ℕ → Option CString → Exec LValueStatus
  | some parent, parentKey => do
    match ← b.node parent with
    | .object _ =>
      return if parentKey.isSome then .addToObject else .fail JSON_BUILD_FAIL_NO_KEY_ON_OBJECT
    | .array _ =>
      return if parentKey.isSome then .fail JSON_BUILD_FAIL_KEY_ON_ARRAY else .addToArray
    | .scalar _ => return .fail JSON_BUILD_FAIL_PARENT_IS_SCALAR
  | none, parentKey =>
    return if parentKey.isSome then .fail JSON_BUILD_FAIL_KEY_ON_ROOT else .addToRoot

def jsonObjectAddProperty (b : JsonBuilder) (obj : ℕ) (key : CString) (value : ℕ) : JsonBuilder :=
  match b.heap[obj]? with
  | some (.object ps) => { b with heap := b.heap.set obj (.object (ps ++ [(key, value)])) }
  | _ => b

def jsonArrayAddElement (b : JsonBuilder) (arr : ℕ) (element : ℕ) : JsonBuilder :=
  match b.heap[arr]? with
  | some (.array es) => { b with heap := b.heap.set arr (.array (es ++ [element])) }
  | _ => b

def addToParent (b : JsonBuilder) (lvalueStatus : LValueStatus) (parent : Option ℕ)
    (parentKey : Option CString) (json : ℕ) : JsonBuilder :=
  match lvalueStatus, parent, parentKey with
  | .addToRoot, _, _ => { b with root := some json }
  | .addToObject, some parent, some parentKey => b.jsonObjectAddProperty parent parentKey json
  | .addToArray, some parent, _ => b.jsonArrayAddElement parent json
  | _, _, _ => b

/-- What all the `jsonBuild` functions do: the new value, if it could be placed, and the
error code. -/
def build (b : JsonBuilder) (parent : Option ℕ) (parentKey : Option CString) (node : JsonNode) :
    Exec (Option ℕ × ℕ × JsonBuilder) := do
  match ← b.checkParentLValue parent parentKey with
  | .fail errorCode => return (none, errorCode, b)
  | lvalueStatus =>
    let json := b.heap.length
    let b := { b with heap := b.heap ++ [node] }
    return (some json, 0, b.addToParent lvalueStatus parent parentKey json)

def jsonBuildObject (b : JsonBuilder) (parent : Option ℕ) (parentKey : Option CString) :
    Exec (Option ℕ × ℕ × JsonBuilder) :=
  b.build parent parentKey (.object [])

def jsonBuildArray (b : JsonBuilder) (parent : Option ℕ) (parentKey : Option CString) :
    Exec (Option ℕ × ℕ × JsonBuilder) :=
  b.build parent parentKey (.array [])

def jsonBuildString (b : JsonBuilder) (parent : Option ℕ) (parentKey : Option CString)
    (s : List Byte) : Exec (Option ℕ × ℕ × JsonBuilder) :=
  b.build parent parentKey (.scalar (.string (CString.ofBytes s)))

def jsonBuildInt (b : JsonBuilder) (parent : Option ℕ) (parentKey : Option CString)
    (i : BitVec 32) : Exec (Option ℕ × ℕ × JsonBuilder) :=
  b.build parent parentKey (.scalar (.number i))

def jsonBuildInt64 (b : JsonBuilder) (parent : Option ℕ) (parentKey : Option CString)
    (i : BitVec 64) : Exec (Option ℕ × ℕ × JsonBuilder) :=
  b.build parent parentKey (.scalar (.int64 i))

def jsonBuildDouble (b : JsonBuilder) (parent : Option ℕ) (parentKey : Option CString)
    (d : BitVec 64) : Exec (Option ℕ × ℕ × JsonBuilder) :=
  b.build parent parentKey (.scalar (.double d))

def jsonBuildBool (b : JsonBuilder) (parent : Option ℕ) (parentKey : Option CString)
    (truthValue : Bool) : Exec (Option ℕ × ℕ × JsonBuilder) :=
  b.build parent parentKey (.scalar (.boolean truthValue))

def jsonBuildNull (b : JsonBuilder) (parent : Option ℕ) (parentKey : Option CString) :
    Exec (Option ℕ × ℕ × JsonBuilder) :=
  b.build parent parentKey (.scalar .null)

end JsonBuilder

end ZoweCommon
