import ZoweCommon.Json.IntegerLiterals
import ZoweCommon.Jwt.Token
import ZoweCommon.Lib.Recorded

/-! The interpreter of parsed filters. -/
namespace ZoweCommon
namespace Jq

open CLibrary CString JsonWebToken

def FIRST_GRULE_ID : ℤ := 10000

def FILTER : ℤ := FIRST_GRULE_ID + 12

def INDEX : ℤ := FIRST_GRULE_ID + 15

def PICK : ℤ := FIRST_GRULE_ID + 16

def EXPLODE : ℤ := FIRST_GRULE_ID + 17

def CONTEXT : ℤ := FIRST_GRULE_ID + 18

def JQ_ERROR_MAX : ℕ := 1024

def JQ_FLAG_RAW_STRINGS : ℕ := 0x0001

def JQ_SUCCESS : ℤ := 0

def JQ_MISSING_PROPERTY : ℤ := 8

def JQ_BAD_PROPERTY_TYPE : ℤ := 12

def JQ_NOT_AN_OBJECT : ℤ := 16

def JQ_NOT_AN_ARRAY : ℤ := 20

def JQ_UNEXPECTED_OPERATION : ℤ := 24

def JQ_INTERNAL_NULL_POINTER : ℤ := 28

def JQ_NON_INTEGER_ARRAY_INDEX_NOT_YET_SUPPORTED : ℤ := 32

def JQ_ARRAY_INDEX_OUT_OF_BOUNDS : ℤ := 36

/-- What is written: values through the JSON printer, and the points where it is reset. -/
inductive Output
  | json (value : Json)
  | reset
  | text (s : CString)
  | newline
  | message (text : List Byte)

/-- What ends an evaluation early. -/
inductive Stop
  | thrown (errorCode : ℤ) (errorMessage : List Byte)
  | undefinedBehaviour

abbrev Eval := Recorded Output Stop

structure JQEvalContext where
  flags : ℕ
  traceLevel : ℤ

abbrev JsonObject := List (CString × Json)

def key (s : String) : CString := ofBytes (ascii s)

def jqEvalThrow {α : Type} (errorCode : ℤ) (text : List Byte) : Eval α :=
  Recorded.stop (.thrown errorCode (snprintf JQ_ERROR_MAX text))

def undefinedBehaviour {α : Type} : Eval α := Recorded.stop .undefinedBehaviour

/-- No caller passes a null object. -/
def getJQProperty (value : JsonObject) (key : CString) : Eval Json :=
  match Json.lookup value key with
  | none => jqEvalThrow JQ_MISSING_PROPERTY (ascii "Missing required property " ++ key.bytes)
  | some propertyValue => pure propertyValue

def jsonIsNumber : Json → Bool
  | .scalar (.number _) | .scalar (.int64 _) | .scalar (.double _) => true
  | _ => false

def getJQInt (value : JsonObject) (key : CString) : Eval ℤ := do
  let intProperty ← getJQProperty value key
  if jsonIsNumber intProperty then return (jsonAsNumber intProperty).toInt
  else
    jqEvalThrow JQ_BAD_PROPERTY_TYPE (ascii "Property '" ++ key.bytes ++ ascii "' is not int")

/-- `getJQInt` for a property that is not required; a missing one is read as a null pointer. -/
def getJQIntOr (value : JsonObject) (key : CString) (defaultValue : ℤ) : Eval ℤ :=
  match Json.lookup value key with
  | none => undefinedBehaviour
  | some intProperty =>
    if jsonIsNumber intProperty then return (jsonAsNumber intProperty).toInt
    else return defaultValue

def getJQString (value : JsonObject) (key : CString) : Eval CString := do
  match ← getJQProperty value key with
  | .scalar (.string s) => return s
  | _ =>
    jqEvalThrow JQ_BAD_PROPERTY_TYPE
      (ascii "Property '" ++ key.bytes ++ ascii "' is not string")

def getJQArray (value : JsonObject) (key : CString) : Eval (List Json) := do
  match ← getJQProperty value key with
  | .array es => return es
  | _ =>
    jqEvalThrow JQ_BAD_PROPERTY_TYPE
      (ascii "Property '" ++ key.bytes ++ ascii "' is not array")

def jqCastToObject : Option Json → Eval JsonObject
  | none => jqEvalThrow JQ_INTERNAL_NULL_POINTER
    (ascii "NULL pointer seen when casting to JsonObject")
  | some (.object ps) => return ps
  | some _ => jqEvalThrow JQ_NOT_AN_OBJECT
    (ascii "Attempt to use value as object that is not an object")

def jqCastToArray : Option Json → Eval (List Json)
  | none => undefinedBehaviour
  | some (.array es) => return es
  | some _ => jqEvalThrow JQ_NOT_AN_ARRAY
    (ascii "Attempt to use value as array that is not an array")

/-- There is no test for what is before the array. -/
def jsonArrayItem (es : List Json) (n : ℤ) : Eval (Option Json) :=
  if n < es.length then
    if 0 ≤ n then return es[n.toNat]? else undefinedBehaviour
  else return none

def jqPrint (ctx : JQEvalContext) : Option Json → Eval Unit
  | none => undefinedBehaviour
  | some (.scalar (.string s)) =>
    if ctx.flags &&& JQ_FLAG_RAW_STRINGS ≠ 0 then Recorded.record (.text s)
    else Recorded.record (.json (.scalar (.string s)))
  | some json => Recorded.record (.json json)

/-- The `switch` of `evalTraversal`. `next` is what is done with each value that is reached. -/
def evalDetails (next : Option Json → Eval Unit) (value : Option Json) (traversalType : ℤ)
    (traversalDetails : Json) : Eval Unit :=
  if traversalType = INDEX then do
    let detailsObject ← jqCastToObject (some traversalDetails)
    let arrayIndex ← getJQIntOr detailsObject (key "INTEGER") (-1)
    if arrayIndex = -1 then
      jqEvalThrow JQ_NON_INTEGER_ARRAY_INDEX_NOT_YET_SUPPORTED (ascii "Index must be integer")
    else
      let valueArray ← jqCastToArray value
      if 0 ≤ arrayIndex ∨ arrayIndex < valueArray.length then
        let valueForIndex ← jsonArrayItem valueArray arrayIndex
        next valueForIndex
      else
        -- the format is `% i`
        jqEvalThrow JQ_ARRAY_INDEX_OUT_OF_BOUNDS
          ((if 0 ≤ arrayIndex then ascii " " else []) ++ formatD arrayIndex ++
            ascii "s not in size of array")
  else if traversalType = PICK then do
    let detailsObject ← jqCastToObject (some traversalDetails)
    let identifier ← getJQString detailsObject (key "ID")
    let valueObject ← jqCastToObject value
    let valueForID ← getJQProperty valueObject identifier
    next (some valueForID)
  else if traversalType = EXPLODE then do
    let valueArray ← jqCastToArray value
    valueArray.forM fun element => do
      Recorded.record .reset
      next (some element)
      Recorded.record .newline
  else if traversalType = CONTEXT then next value
  else jqEvalThrow JQ_UNEXPECTED_OPERATION
    (ascii "unexpeted operation " ++ formatD traversalType)

/-- `evalTraversal` up to its `switch`. -/
def evalStep (ctx : JQEvalContext) (filter : Json) (index moreCount : ℕ)
    (next : Option Json → Eval Unit) (value : Option Json) : Eval Unit := do
  let filterObject ← jqCastToObject (some filter)
  if 1 ≤ ctx.traceLevel then
    Recorded.record (.message (ascii "evalTraversal, index=" ++ formatD index ++
      ascii " mcount=" ++ formatD moreCount ++ [0x0A]))
  let firstTraversal ← getJQProperty filterObject (key "TRAVERSAL")
  let moreTraversals ← getJQArray filterObject (key "MORE_TRAVERSALS")
  let traversal ←
    if index = 0 then pure (some firstTraversal) else jsonArrayItem moreTraversals (index - 1)
  let traversalObject ← jqCastToObject traversal
  let traversalType ← getJQInt traversalObject (key "altID")
  let traversalDetails ← getJQProperty traversalObject (key "value")
  evalDetails next value traversalType traversalDetails

/-- The first argument after the filter is `moreCount - index`. -/
def evalTraversal (ctx : JQEvalContext) (filter : Json) : ℕ → ℕ → Option Json → Eval Unit
  | 0, index => evalStep ctx filter index index (jqPrint ctx)
  | remaining + 1, index =>
    evalStep ctx filter index (index + (remaining + 1))
      (evalTraversal ctx filter remaining (index + 1))

def evalFilter (ctx : JQEvalContext) (value filter : Json) : Eval Unit := do
  let filterObject ← jqCastToObject (some filter)
  let moreTraversals ← getJQArray filterObject (key "MORE_TRAVERSALS")
  evalTraversal ctx filter moreTraversals.length 0 (some value)

def evalOperation (ctx : JQEvalContext) (value operation : Json) : Eval Unit := do
  let operationObject ← jqCastToObject (some operation)
  let altID ← getJQInt operationObject (key "altID")
  if altID = FILTER then
    let filter ← getJQProperty operationObject (key "value")
    evalFilter ctx value filter
  else jqEvalThrow JQ_UNEXPECTED_OPERATION (ascii "unexpected operation " ++ formatD altID)

/-- The tail of the expression is ignored. -/
def evalJQExpr (ctx : JQEvalContext) (value expr : Json) : Eval Unit := do
  let exprObject ← jqCastToObject (some expr)
  let operation ← getJQProperty exprObject (key "OPERATION")
  let _exprTail ← getJQProperty exprObject (key "EXPR_TAIL")
  evalOperation ctx value operation

/-- What is returned for an evaluation that ended or was left by a throw. -/
def finished (run : Eval Unit) : Recorded Output Fault ℤ :=
  match run.result with
  | .ok _ => ⟨run.events, .ok JQ_SUCCESS⟩
  | .error (.thrown errorCode errorMessage) =>
    ⟨run.events ++ [.message (ascii "uJQ error message: " ++ errorMessage ++ [0x0A])],
      .ok errorCode⟩
  | .error .undefinedBehaviour => ⟨run.events, .error .undefinedBehaviour⟩

def evalJQ (value jqTree : Json) (flags : ℕ) (traceLevel : ℤ) : Recorded Output Fault ℤ :=
  finished do
    let tree ← jqCastToObject (some jqTree)
    let expr ← getJQProperty tree (key "EXPR")
    evalJQExpr ⟨flags, traceLevel⟩ value expr

end Jq
end ZoweCommon
