import ZoweCommon.Json.Builder

/-! `copyJson` and `jsonMerge`: the merged tree is built next to the two it is made from. -/
namespace ZoweCommon
namespace JsonBuilder

def JSON_MERGE_STATUS_SUCCESS : ℕ := 0

def JSON_MERGE_FLAG_ARRAY_POLICY_MASK : BitVec 32 := 0x000F
def JSON_MERGE_FLAG_CONCATENATE_ARRAYS : BitVec 32 := 0x0001
def JSON_MERGE_FLAG_MERGE_IN_PLACE : BitVec 32 := 0x0002
def JSON_MERGE_FLAG_TAKE_BASE : BitVec 32 := 0x0003
def JSON_MERGE_FLAG_TAKE_OVERRIDES : BitVec 32 := 0x0004

def jsonObjectGetPropertyValue (ps : List (CString × ℕ)) (key : CString) : Option ℕ :=
  (ps.find? fun p => p.1 = key).map Prod.snd

def jsonObjectHasKey (ps : List (CString × ℕ)) (key : CString) : Bool :=
  ps.any fun p => p.1 = key

/-- Error codes are consumed and discarded. -/
def copyJson : ℕ → JsonBuilder → Option ℕ → Option CString → ℕ → Exec JsonBuilder
  | 0, _, _, _, _ => throw .nonTermination
  | fuel + 1, b, parent, parentKey, json => do
    match ← b.node json with
    | .object ps =>
      let (copyObject, _, b) ← b.jsonBuildObject parent parentKey
      ps.foldlM (fun b prop => copyJson fuel b copyObject (some prop.1) prop.2) b
    | .array es =>
      let (copyArray, _, b) ← b.jsonBuildArray parent parentKey
      es.foldlM (fun b item => copyJson fuel b copyArray none item) b
    | .scalar (.boolean truthValue) =>
      let (_, _, b) ← b.jsonBuildBool parent parentKey truthValue
      return b
    | .scalar .null =>
      let (_, _, b) ← b.jsonBuildNull parent parentKey
      return b
    | .scalar (.double d) =>
      let (_, _, b) ← b.jsonBuildDouble parent parentKey d
      return b
    | .scalar (.int64 i) =>
      let (_, _, b) ← b.jsonBuildInt64 parent parentKey i
      return b
    | .scalar (.number i) =>
      let (_, _, b) ← b.jsonBuildInt parent parentKey i
      return b
    | .scalar (.string s) =>
      let (_, _, b) ← b.jsonBuildString parent parentKey s.bytes
      return b

/-- A loop over a list that goes on while the status is zero. -/
def whileSuccess {α : Type} (body : JsonBuilder → α → Exec (ℕ × JsonBuilder)) :
    JsonBuilder → List α → Exec (ℕ × JsonBuilder)
  | b, [] => return (JSON_MERGE_STATUS_SUCCESS, b)
  | b, x :: xs => do
    let (status, b) ← body b x
    if status = 0 then whileSuccess body b xs else return (status, b)

def mergeJson1 (flags : BitVec 32) :
    ℕ → JsonBuilder → Option ℕ → Option CString → ℕ → ℕ → Exec (ℕ × JsonBuilder)
  | 0, _, _, _, _, _ => throw .nonTermination
  | fuel + 1, b, parent, parentKey, overrides, base => do
    match ← b.node base with
    | .object baseObject =>
      match ← b.node overrides with
      | .object overridesObject =>
        let (merged, _, b) ← b.jsonBuildObject parent parentKey
        let (status, b) ← whileSuccess (fun b baseProp =>
          match jsonObjectGetPropertyValue overridesObject baseProp.1 with
          | none => do
            let b ← copyJson fuel b merged (some baseProp.1) baseProp.2
            return (0, b)
          | some overrideValue =>
            mergeJson1 flags fuel b merged (some baseProp.1) overrideValue baseProp.2) b baseObject
        if status ≠ 0 then return (status, b)
        let b ← overridesObject.foldlM (fun b overrideProp =>
          if jsonObjectHasKey baseObject overrideProp.1 then return b
          else copyJson fuel b merged (some overrideProp.1) overrideProp.2) b
        return (status, b)
      | _ =>
        let b ← copyJson fuel b parent parentKey overrides
        return (JSON_MERGE_STATUS_SUCCESS, b)
    | .array baseArray =>
      match ← b.node overrides with
      | .array overridesArray =>
        let arrayPolicy := flags &&& JSON_MERGE_FLAG_ARRAY_POLICY_MASK
        let (merged, _, b) ← b.jsonBuildArray parent parentKey
        if arrayPolicy = JSON_MERGE_FLAG_CONCATENATE_ARRAYS then
          let b ← baseArray.foldlM (fun b item => copyJson fuel b merged none item) b
          let b ← overridesArray.foldlM (fun b item => copyJson fuel b merged none item) b
          return (JSON_MERGE_STATUS_SUCCESS, b)
        else if arrayPolicy = JSON_MERGE_FLAG_MERGE_IN_PLACE then
          let mergedSize := max baseArray.length overridesArray.length
          let b ← (List.range mergedSize).foldlM (fun b i =>
            match overridesArray[i]?, baseArray[i]? with
            | some valueO, some valueB => do
              -- the status of an element is not looked at
              let (_, b) ← mergeJson1 flags fuel b merged none valueO valueB
              return b
            | some valueO, none => copyJson fuel b merged none valueO
            | none, some valueB => copyJson fuel b merged none valueB
            | none, none => return b) b
          return (JSON_MERGE_STATUS_SUCCESS, b)
        else if arrayPolicy = JSON_MERGE_FLAG_TAKE_BASE then
          let b ← baseArray.foldlM (fun b item => copyJson fuel b merged none item) b
          return (JSON_MERGE_STATUS_SUCCESS, b)
        else
          let b ← overridesArray.foldlM (fun b item => copyJson fuel b merged none item) b
          return (JSON_MERGE_STATUS_SUCCESS, b)
      | _ =>
        let b ← copyJson fuel b parent parentKey overrides
        return (JSON_MERGE_STATUS_SUCCESS, b)
    | .scalar _ =>
      let b ← copyJson fuel b parent parentKey overrides
      return (JSON_MERGE_STATUS_SUCCESS, b)

end JsonBuilder

/-- The merged value, or a null pointer; the status; and the memory afterwards. -/
def jsonMerge (flags : BitVec 32) (fuel : ℕ) (heap : List JsonNode) (overrides base : ℕ) :
    Exec (Option ℕ × ℕ × List JsonNode) := do
  let (status, builder) ← JsonBuilder.mergeJson1 flags fuel ⟨heap, none⟩ none none overrides base
  return (if status ≠ 0 then none else builder.root, status, builder.heap)

end ZoweCommon
