import ZoweCommon.Jq.Eval

/-! Which filters an evaluation follows to the values that they name. -/
namespace ZoweCommon
namespace Jq

open CLibrary CString JsonWebToken

/-! The trees of the filters that are one operation of traversals -/

/-- The digits of an integer token. -/
structure Numeral where
  digits : List ℕ
  ne_nil : digits ≠ []
  lt_ten : ∀ d ∈ digits, d < 10

namespace Numeral

def value (n : Numeral) : ℕ := Decimal.value n.digits

def text (n : Numeral) : List Byte := n.digits.map digitChar

end Numeral

inductive Traversal
  | index (n : Numeral)
  | pick (name : CString)
  | explode
  | context

/-- What `BUILD_NUMBER` adds for the text of a token. -/
def buildNumber (numberText : List Byte) : Json :=
  let val := strtoll (ofBytes numberText)
  if val.toInt < 0x7FFFFFFF then .scalar (.number (val.truncate 32)) else .scalar (.int64 val)

def buildString (text : List Byte) : Json := .scalar (.string (ofBytes text))

/-- What `BUILD_ALT` adds for the alternative that was taken. -/
def buildAlt (choiceID : ℤ) (value : Json) : Json :=
  .object [(key "altID", .scalar (.number (BitVec.ofInt 32 choiceID))), (key "value", value)]

def Traversal.id : Traversal → ℤ
  | .index _ => INDEX
  | .pick _ => PICK
  | .explode => EXPLODE
  | .context => CONTEXT

/-- The tokens of the rule, under their names. -/
def Traversal.details : Traversal → Json
  | .index n => .object [(key "LBRACK", buildString (ascii "[")),
      (key "INTEGER", buildNumber n.text), (key "RBRACK", buildString (ascii "]"))]
  | .pick name => .object [(key "DOT", buildString (ascii ".")),
      (key "ID", .scalar (.string name))]
  | .explode => .object [(key "LBRACK", buildString (ascii "[")),
      (key "RBRACK", buildString (ascii "]"))]
  | .context => .object [(key "DOT", buildString (ascii "."))]

def Traversal.tree (t : Traversal) : Json := buildAlt t.id t.details

def filterTree (first : Traversal) (more : List Traversal) : Json :=
  .object [(key "TRAVERSAL", first.tree),
    (key "MORE_TRAVERSALS", .array (more.map Traversal.tree))]

def jqTree (first : Traversal) (more : List Traversal) : Json :=
  .object [
    (key "EXPR", .object [
      (key "OPERATION", buildAlt FILTER (filterTree first more)),
      (key "EXPR_TAIL", .array [])]),
    (key "<EOF>", buildString [])]

/-! What a filter names -/

/-- The values that the traversals reach, up to the first of them that does not apply. -/
def reached : List Traversal → Json → Recorded Json ℤ Unit
  | [], value => Recorded.record value
  | .index n :: ts, .array es =>
    match es[n.value]? with
    | some value => reached ts value
    | none => Recorded.stop JQ_ARRAY_INDEX_OUT_OF_BOUNDS
  | .index _ :: _, _ => Recorded.stop JQ_NOT_AN_ARRAY
  | .pick name :: ts, .object ps =>
    match Json.lookup ps name with
    | some value => reached ts value
    | none => Recorded.stop JQ_MISSING_PROPERTY
  | .pick _ :: _, _ => Recorded.stop JQ_NOT_AN_OBJECT
  | .explode :: ts, .array es => es.forM fun element => reached ts element
  | .explode :: _, _ => Recorded.stop JQ_NOT_AN_ARRAY
  | .context :: ts, value => reached ts value

/-- What is left of a number once it is converted to `int64_t` and then to `int`. -/
def Numeral.arrayIndex (n : Numeral) : ℤ := (BitVec.ofNat 32 (min n.value (2 ^ 63 - 1))).toInt

/-- Every index that comes up is below the size of its array or, where there is no array, is not
converted to the default value -1. -/
def Followable : List Traversal → Json → Prop
  | [], _ => True
  | .index n :: ts, .array es => ∃ value, es[n.value]? = some value ∧ Followable ts value
  | .index n :: _, _ => n.arrayIndex ≠ -1
  | .pick name :: ts, .object ps => ∀ value, Json.lookup ps name = some value → Followable ts value
  | .pick _ :: _, _ => True
  | .explode :: ts, .array es => ∀ before element after, es = before ++ element :: after →
      (∀ e ∈ before, (reached ts e).result = .ok ()) → Followable ts element
  | .explode :: _, _ => True
  | .context :: ts, value => Followable ts value

/-- The sizes of the arrays are of type `int`. -/
inductive ArraysFit : Json → Prop
  | scalar (s : JsonScalar) : ArraysFit (.scalar s)
  | object {ps : List (CString × Json)} (values : ∀ p ∈ ps, ArraysFit p.2) :
      ArraysFit (.object ps)
  | array {es : List Json} (size : es.length < 2 ^ 31) (elements : ∀ e ∈ es, ArraysFit e) :
      ArraysFit (.array es)

/-- How a value is written. -/
def shown (flags : ℕ) : Json → Output
  | .scalar (.string s) =>
    if flags &&& JQ_FLAG_RAW_STRINGS ≠ 0 then .text s else .json (.scalar (.string s))
  | json => .json json

def Output.isValue : Output → Bool
  | .json _ | .text _ => true
  | .reset | .newline | .message _ => false

/-- No value is written through a printer that has written one since it was made or reset. -/
def FreshlyPrinted : Bool → List Output → Prop
  | _, [] => True
  | fresh, .json _ :: outputs => fresh = true ∧ FreshlyPrinted false outputs
  | _, .reset :: outputs => FreshlyPrinted true outputs
  | fresh, .text _ :: outputs | fresh, .newline :: outputs | fresh, .message _ :: outputs =>
    FreshlyPrinted fresh outputs

def returnCode : Except ℤ Unit → ℤ
  | .ok _ => JQ_SUCCESS
  | .error errorCode => errorCode

/-- The values that the traversals reach are written, each by a printer in its first state, and
the return code tells whether all of them apply. -/
structure FollowsPath (flags : ℕ) (traceLevel : ℤ) (value : Json) (first : Traversal)
    (more : List Traversal) : Prop where
  values : (evalJQ value (jqTree first more) flags traceLevel).events.filter Output.isValue =
    (reached (first :: more) value).events.map (shown flags)
  fresh : FreshlyPrinted true (evalJQ value (jqTree first more) flags traceLevel).events
  result : (evalJQ value (jqTree first more) flags traceLevel).result =
    .ok (returnCode (reached (first :: more) value).result)

/-! One step of an evaluation -/

theorem strtoll_text (n : Numeral) :
    strtoll (ofBytes n.text) = BitVec.ofNat 64 (min n.value (2 ^ 63 - 1)) := by
  have hnul : NoNul n.text := by
    intro b hb
    obtain ⟨d, hd, rfl⟩ := List.mem_map.mp hb
    intro hzero
    have hnat := toNat_digitChar (n.lt_ten d hd)
    rw [hzero] at hnat
    change 0 = 0x30 + d at hnat
    omega
  have hbytes : (ofBytes n.text).bytes = signedDigits false n.digits := ofBytes_of_noNul hnul
  rw [strtoll_literal n.ne_nil n.lt_ten hbytes, ← BitVec.ofInt_natCast]
  congr 1
  change max (-2 ^ 63) (min (n.value : ℤ) (2 ^ 63 - 1)) = _
  omega

theorem jsonAsNumber_buildNumber (n : Numeral) :
    jsonIsNumber (buildNumber n.text) = true ∧
      (jsonAsNumber (buildNumber n.text)).toInt = n.arrayIndex := by
  have htruncate : (BitVec.ofNat 64 (min n.value (2 ^ 63 - 1))).truncate 32 =
      BitVec.ofNat 32 (min n.value (2 ^ 63 - 1)) := by
    apply BitVec.eq_of_toNat_eq
    rw [BitVec.truncate_eq_setWidth, BitVec.toNat_setWidth, BitVec.toNat_ofNat, BitVec.toNat_ofNat]
    omega
  rw [buildNumber, strtoll_text]
  split_ifs
  · exact ⟨rfl, congrArg BitVec.toInt htruncate⟩
  · exact ⟨rfl, congrArg BitVec.toInt htruncate⟩

/-- The body of the loop over the elements of an array. -/
def explodeElement (next : Option Json → Eval Unit) (element : Json) : Eval Unit := do
  Recorded.record .reset
  next (some element)
  Recorded.record .newline

section Step

variable {next : Option Json → Eval Unit} {value : Option Json}

/-- The test for the bounds always lets an index pass. -/
theorem evalDetails_index (n : Numeral) :
    evalDetails next value INDEX (Traversal.index n).details =
      if n.arrayIndex = -1 then
        jqEvalThrow JQ_NON_INTEGER_ARRAY_INDEX_NOT_YET_SUPPORTED (ascii "Index must be integer")
      else (do
        let valueArray ← jqCastToArray value
        let valueForIndex ← jsonArrayItem valueArray n.arrayIndex
        next valueForIndex) := by
  have hindex : getJQIntOr [(key "LBRACK", buildString (ascii "[")),
      (key "INTEGER", buildNumber n.text), (key "RBRACK", buildString (ascii "]"))]
      (key "INTEGER") (-1) = pure n.arrayIndex := by
    obtain ⟨hnumber, hint⟩ := jsonAsNumber_buildNumber n
    change (if jsonIsNumber (buildNumber n.text) then _ else _) = _
    rw [if_pos hnumber, hint]
  have hbounds : ∀ es : List Json, 0 ≤ n.arrayIndex ∨ n.arrayIndex < es.length := by
    intro es
    omega
  rw [evalDetails, if_pos rfl]
  change (getJQIntOr _ _ _ >>= _) = _
  rw [hindex, pure_bind]
  by_cases hdefault : n.arrayIndex = -1
  · rw [if_pos hdefault, if_pos hdefault]
  · rw [if_neg hdefault, if_neg hdefault]
    refine bind_congr fun es => ?_
    rw [if_pos (hbounds es)]

theorem evalDetails_pick (name : CString) :
    evalDetails next value PICK (Traversal.pick name).details = (do
      let valueObject ← jqCastToObject value
      let valueForID ← getJQProperty valueObject name
      next (some valueForID)) := rfl

theorem evalDetails_explode :
    evalDetails next value EXPLODE Traversal.explode.details = (do
      let valueArray ← jqCastToArray value
      valueArray.forM (explodeElement next)) := rfl

def traced (ctx : JQEvalContext) (index moreCount : ℕ) : Eval Unit :=
  if 1 ≤ ctx.traceLevel then
    Recorded.record (.message (ascii "evalTraversal, index=" ++ formatD index ++
      ascii " mcount=" ++ formatD moreCount ++ [0x0A]))
  else pure ()

theorem result_traced (ctx : JQEvalContext) (index moreCount : ℕ) :
    (traced ctx index moreCount).result = .ok () := by
  rw [traced]
  split_ifs <;> rfl

theorem evalStep_filterTree (ctx : JQEvalContext) {first t : Traversal} {more : List Traversal}
    {index : ℕ} (moreCount : ℕ) (ht : (first :: more)[index]? = some t) :
    evalStep ctx (filterTree first more) index moreCount next value =
      traced ctx index moreCount >>= fun _ => evalDetails next value t.id t.details := by
  have hitem : (if index = 0 then pure (some first.tree)
      else jsonArrayItem (more.map Traversal.tree) (index - 1)) =
        (pure (some t.tree) : Eval (Option Json)) := by
    cases index with
    | zero =>
      cases ht
      rfl
    | succ index =>
      rw [List.getElem?_cons_succ] at ht
      have hlt := (List.getElem?_eq_some_iff.mp ht).1
      rw [if_neg (Nat.succ_ne_zero index), jsonArrayItem, List.length_map, if_pos (by omega),
        if_pos (by omega), List.getElem?_map]
      have hnat : ((index + 1 : ℕ) - 1 : ℤ).toNat = index := by omega
      rw [hnat, ht]
      rfl
  have hmid : getJQInt [(key "altID", .scalar (.number (BitVec.ofInt 32 t.id))),
      (key "value", t.details)] (key "altID") = pure t.id := by
    cases t <;> rfl
  have hstep : evalStep ctx (filterTree first more) index moreCount next value =
      traced ctx index moreCount >>= fun _ =>
        (if index = 0 then pure (some first.tree)
          else jsonArrayItem (more.map Traversal.tree) (index - 1)) >>= fun traversal =>
        jqCastToObject traversal >>= fun traversalObject =>
        getJQInt traversalObject (key "altID") >>= fun traversalType =>
        getJQProperty traversalObject (key "value") >>= fun traversalDetails =>
        evalDetails next value traversalType traversalDetails := by
    rw [traced]
    change (if _ then _ else _) = _
    split_ifs <;> rfl
  rw [hstep, hitem]
  refine bind_congr fun _ => ?_
  have hobject : jqCastToObject (some t.tree) = pure
      [(key "altID", .scalar (.number (BitVec.ofInt 32 t.id))), (key "value", t.details)] := rfl
  rw [pure_bind, hobject, pure_bind, hmid]
  rfl

end Step

/-- What is done with each value that the traversal before has reached. -/
def evalRest (ctx : JQEvalContext) (filter : Json) : List Traversal → ℕ → Option Json → Eval Unit
  | [], _ => jqPrint ctx
  | _ :: ts, index => evalTraversal ctx filter ts.length index

theorem evalRest_cons (ctx : JQEvalContext) {first t : Traversal} {more ts : List Traversal}
    {index : ℕ} (value : Option Json) (hdrop : (first :: more).drop index = t :: ts) :
    evalRest ctx (filterTree first more) (t :: ts) index value =
      traced ctx index (index + ts.length) >>= fun _ =>
        evalDetails (evalRest ctx (filterTree first more) ts (index + 1)) value t.id t.details := by
  have ht : (first :: more)[index]? = some t := by
    rw [← List.head?_drop, hdrop]
    rfl
  cases ts with
  | nil => exact evalStep_filterTree ctx _ ht
  | cons t' ts => exact evalStep_filterTree ctx _ ht

theorem drop_succ {first t : Traversal} {more ts : List Traversal} {index : ℕ}
    (hdrop : (first :: more).drop index = t :: ts) : (first :: more).drop (index + 1) = ts := by
  rw [← List.tail_drop, hdrop]
  rfl

/-! What an evaluation throws -/

/-- The codes that are thrown for a filter of traversals. -/
def knownCodes : List ℤ :=
  [JQ_MISSING_PROPERTY, JQ_BAD_PROPERTY_TYPE, JQ_NOT_AN_OBJECT, JQ_NOT_AN_ARRAY,
    JQ_INTERNAL_NULL_POINTER, JQ_NON_INTEGER_ARRAY_INDEX_NOT_YET_SUPPORTED]

def Stop.Known : Stop → Prop
  | .thrown errorCode _ => errorCode ∈ knownCodes
  | .undefinedBehaviour => True

theorem stopsIn_jqEvalThrow {α : Type} {errorCode : ℤ} (h : errorCode ∈ knownCodes)
    (text : List Byte) : (jqEvalThrow errorCode text : Eval α).StopsIn Stop.Known :=
  Recorded.stopsIn_stop h

theorem stopsIn_jqCastToObject (value : Option Json) :
    (jqCastToObject value).StopsIn Stop.Known := by
  rcases value with - | (s | ps | es)
  · exact stopsIn_jqEvalThrow (by decide) _
  · exact stopsIn_jqEvalThrow (by decide) _
  · exact Recorded.stopsIn_of_ok rfl
  · exact stopsIn_jqEvalThrow (by decide) _

theorem stopsIn_jqCastToArray (value : Option Json) :
    (jqCastToArray value).StopsIn Stop.Known := by
  rcases value with - | (s | ps | es)
  · exact Recorded.stopsIn_stop trivial
  · exact stopsIn_jqEvalThrow (by decide) _
  · exact stopsIn_jqEvalThrow (by decide) _
  · exact Recorded.stopsIn_of_ok rfl

theorem stopsIn_getJQProperty (value : JsonObject) (key : CString) :
    (getJQProperty value key).StopsIn Stop.Known := by
  rw [getJQProperty]
  cases Json.lookup value key with
  | none => exact stopsIn_jqEvalThrow (by decide) _
  | some v => exact Recorded.stopsIn_of_ok rfl

theorem stopsIn_jsonArrayItem (es : List Json) (n : ℤ) :
    (jsonArrayItem es n).StopsIn Stop.Known := by
  rw [jsonArrayItem]
  split_ifs
  · exact Recorded.stopsIn_of_ok rfl
  · exact Recorded.stopsIn_stop trivial
  · exact Recorded.stopsIn_of_ok rfl

/-- What is written for a value that is not missing. -/
theorem jqPrint_some (ctx : JQEvalContext) (json : Json) :
    jqPrint ctx (some json) = Recorded.record (shown ctx.flags json) := by
  rcases json with (n | n | n | s | b) | ps | es
  case scalar.string =>
    rw [jqPrint, shown]
    split_ifs <;> rfl
  all_goals rfl

theorem stopsIn_jqPrint (ctx : JQEvalContext) (value : Option Json) :
    (jqPrint ctx value).StopsIn Stop.Known := by
  cases value with
  | none => exact Recorded.stopsIn_stop trivial
  | some json =>
    rw [jqPrint_some]
    exact Recorded.stopsIn_of_ok rfl

theorem stopsIn_evalDetails {next : Option Json → Eval Unit}
    (hnext : ∀ value, (next value).StopsIn Stop.Known) (t : Traversal) (value : Option Json) :
    (evalDetails next value t.id t.details).StopsIn Stop.Known := by
  cases t with
  | index n =>
    rw [Traversal.id, evalDetails_index]
    split_ifs
    · exact stopsIn_jqEvalThrow (by decide) _
    · exact (stopsIn_jqCastToArray value).bind fun es => (stopsIn_jsonArrayItem es _).bind hnext
  | pick name =>
    rw [Traversal.id, evalDetails_pick]
    exact (stopsIn_jqCastToObject value).bind fun ps =>
      (stopsIn_getJQProperty ps name).bind fun v => hnext (some v)
  | explode =>
    rw [Traversal.id, evalDetails_explode]
    refine (stopsIn_jqCastToArray value).bind fun es => Recorded.StopsIn.forM (fun e => ?_) es
    exact (Recorded.stopsIn_of_ok rfl).bind fun _ =>
      (hnext (some e)).bind fun _ => Recorded.stopsIn_of_ok rfl
  | context => exact hnext value

/-- By induction on the traversals that are left. -/
theorem stopsIn_evalRest (ctx : JQEvalContext) {first : Traversal} {more ts : List Traversal}
    {index : ℕ} (hdrop : (first :: more).drop index = ts) (value : Option Json) :
    (evalRest ctx (filterTree first more) ts index value).StopsIn Stop.Known := by
  induction ts generalizing index value with
  | nil => exact stopsIn_jqPrint ctx value
  | cons t ts ih =>
    rw [evalRest_cons ctx value hdrop]
    refine (Recorded.stopsIn_of_ok (result_traced ctx _ _)).bind fun _ => ?_
    exact stopsIn_evalDetails (ih (drop_succ hdrop)) t value

/-! The printer -/

theorem freshlyPrinted_append {fresh : Bool} {outputs more : List Output}
    (h : FreshlyPrinted fresh outputs) (hmore : ∀ fresh, FreshlyPrinted fresh more) :
    FreshlyPrinted fresh (outputs ++ more) := by
  induction outputs generalizing fresh with
  | nil => exact hmore fresh
  | cons o outputs ih =>
    cases o with
    | json v => exact ⟨h.1, ih h.2⟩
    | reset =>
      have hrest : FreshlyPrinted true outputs := h
      exact ih hrest
    | text s =>
      have hrest : FreshlyPrinted fresh outputs := h
      exact ih hrest
    | newline =>
      have hrest : FreshlyPrinted fresh outputs := h
      exact ih hrest
    | message text =>
      have hrest : FreshlyPrinted fresh outputs := h
      exact ih hrest

section Fresh

variable {α β : Type} {m : Eval α} {f : α → Eval β} {fresh : Bool}

theorem freshlyPrinted_bind (hm : FreshlyPrinted fresh m.events)
    (hf : ∀ a fresh, FreshlyPrinted fresh (f a).events) :
    FreshlyPrinted fresh (m >>= f).events := by
  cases hresult : m.result with
  | error s =>
    rw [Recorded.bind_of_error f hresult]
    exact hm
  | ok a =>
    rw [Recorded.bind_of_ok f hresult]
    exact freshlyPrinted_append hm (hf a)

/-- What writes nothing leaves the printer as it is. -/
theorem freshlyPrinted_bind_of_nil (hm : m.events = [])
    (hf : ∀ a, FreshlyPrinted fresh (f a).events) : FreshlyPrinted fresh (m >>= f).events := by
  cases hresult : m.result with
  | error s =>
    rw [Recorded.bind_of_error f hresult, hm]
    trivial
  | ok a =>
    rw [Recorded.bind_of_ok f hresult, hm]
    exact hf a

end Fresh

theorem events_jqCastToObject (value : Option Json) : (jqCastToObject value).events = [] := by
  rcases value with - | (s | ps | es) <;> rfl

theorem events_jqCastToArray (value : Option Json) : (jqCastToArray value).events = [] := by
  rcases value with - | (s | ps | es) <;> rfl

theorem events_getJQProperty (value : JsonObject) (key : CString) :
    (getJQProperty value key).events = [] := by
  rw [getJQProperty]
  cases Json.lookup value key <;> rfl

theorem events_jsonArrayItem (es : List Json) (n : ℤ) : (jsonArrayItem es n).events = [] := by
  rw [jsonArrayItem]
  split_ifs <;> rfl

theorem freshlyPrinted_jqPrint (ctx : JQEvalContext) (value : Option Json) :
    FreshlyPrinted true (jqPrint ctx value).events := by
  rcases value with - | ((n | n | n | s | b) | ps | es)
  case some.scalar.string =>
    rw [jqPrint]
    split_ifs
    · trivial
    · exact ⟨rfl, trivial⟩
  case none => trivial
  all_goals exact ⟨rfl, trivial⟩

/-- The printer is reset for each element. By induction on the elements. -/
theorem freshlyPrinted_explode {next : Option Json → Eval Unit}
    (hnext : ∀ value, FreshlyPrinted true (next value).events) (es : List Json) (fresh : Bool) :
    FreshlyPrinted fresh (es.forM (explodeElement next)).events := by
  induction es generalizing fresh with
  | nil => trivial
  | cons e es ih =>
    have hafter : FreshlyPrinted true
        (next (some e) >>= fun _ => (Recorded.record .newline : Eval Unit)).events :=
      freshlyPrinted_bind (hnext (some e)) fun _ fresh => trivial
    have helement : FreshlyPrinted fresh (explodeElement next e).events := hafter
    exact freshlyPrinted_bind helement fun _ fresh => ih fresh

theorem freshlyPrinted_evalDetails {next : Option Json → Eval Unit}
    (hnext : ∀ value, FreshlyPrinted true (next value).events) (t : Traversal)
    (value : Option Json) : FreshlyPrinted true (evalDetails next value t.id t.details).events := by
  cases t with
  | index n =>
    rw [Traversal.id, evalDetails_index]
    split_ifs
    · trivial
    · exact freshlyPrinted_bind_of_nil (events_jqCastToArray value) fun es =>
        freshlyPrinted_bind_of_nil (events_jsonArrayItem es _) hnext
  | pick name =>
    rw [Traversal.id, evalDetails_pick]
    exact freshlyPrinted_bind_of_nil (events_jqCastToObject value) fun ps =>
      freshlyPrinted_bind_of_nil (events_getJQProperty ps name) fun v => hnext (some v)
  | explode =>
    rw [Traversal.id, evalDetails_explode]
    exact freshlyPrinted_bind_of_nil (events_jqCastToArray value) fun es =>
      freshlyPrinted_explode hnext es true
  | context => exact hnext value

/-- By induction on the traversals that are left. -/
theorem freshlyPrinted_evalRest (ctx : JQEvalContext) {first : Traversal}
    {more ts : List Traversal} {index : ℕ} (hdrop : (first :: more).drop index = ts)
    (value : Option Json) :
    FreshlyPrinted true (evalRest ctx (filterTree first more) ts index value).events := by
  induction ts generalizing index value with
  | nil => exact freshlyPrinted_jqPrint ctx value
  | cons t ts ih =>
    rw [evalRest_cons ctx value hdrop, traced]
    split_ifs
    · exact freshlyPrinted_evalDetails (ih (drop_succ hdrop)) t value
    · exact freshlyPrinted_evalDetails (ih (drop_succ hdrop)) t value

/-! What an evaluation writes and returns -/

/-- The run writes the values and stops where the traversals do. -/
structure Matches (flags : ℕ) (m : Eval Unit) (r : Recorded Json ℤ Unit) : Prop where
  values : m.events.filter Output.isValue = r.events.map (shown flags)
  ok : r.result = .ok () → m.result = .ok ()
  error : ∀ c, r.result = .error c → ∃ text, m.result = .error (.thrown c text)

/-- The run cannot return what the traversals do: these stop at an index out of bounds, or both
stop and the run not with the same code. -/
def Clashes (m : Eval Unit) (r : Recorded Json ℤ Unit) : Prop :=
  r.result = .error JQ_ARRAY_INDEX_OUT_OF_BOUNDS ∨
    ∃ c s, r.result = .error c ∧ m.result = .error s ∧ ∀ text, s ≠ .thrown c text

section Runs

variable {flags : ℕ} {next : Option Json → Eval Unit} {m m' : Eval Unit}
  {r r' : Recorded Json ℤ Unit}

theorem Matches.message (h : Matches flags m r) (text : List Byte) :
    Matches flags (Recorded.record (.message text) >>= fun _ => m) r :=
  ⟨h.values, h.ok, h.error⟩

theorem Matches.bind (h : Matches flags m r) (hrest : r.result = .ok () → Matches flags m' r') :
    Matches flags (m >>= fun _ => m') (r >>= fun _ => r') := by
  cases hr : r.result with
  | error c =>
    obtain ⟨text, hm⟩ := h.error c hr
    rw [Recorded.bind_of_error _ hm, Recorded.bind_of_error _ hr]
    refine ⟨h.values, ?_, ?_⟩
    · intro hok
      cases hok
    · intro c' hc
      cases hc
      exact ⟨text, rfl⟩
  | ok u =>
    have hrest := hrest hr
    rw [Recorded.bind_of_ok _ (h.ok hr), Recorded.bind_of_ok _ hr]
    refine ⟨?_, hrest.ok, hrest.error⟩
    rw [List.filter_append, List.map_append, h.values, hrest.values]

/-- The reset before an element and the line end after it are no values. -/
theorem Matches.explodeElement {e : Json} (h : Matches flags (next (some e)) r) :
    Matches flags (explodeElement next e) r := by
  have hbody : Jq.explodeElement next e = ⟨.reset :: (next (some e) >>= fun _ =>
      (Recorded.record .newline : Eval Unit)).events, (next (some e) >>= fun _ =>
      (Recorded.record .newline : Eval Unit)).result⟩ := rfl
  rw [hbody]
  cases hm : (next (some e)).result with
  | error s =>
    rw [Recorded.bind_of_error _ hm]
    refine ⟨h.values, ?_, ?_⟩
    · intro hok
      rw [h.ok hok] at hm
      cases hm
    · intro c hc
      rw [← hm]
      exact h.error c hc
  | ok u =>
    rw [Recorded.bind_of_ok _ hm]
    refine ⟨?_, fun _ => rfl, fun c hc => ?_⟩
    · change ((next (some e)).events ++ [Output.newline]).filter Output.isValue = _
      rw [List.filter_append, h.values]
      exact List.append_nil _
    · obtain ⟨text, htext⟩ := h.error c hc
      rw [hm] at htext
      cases htext

theorem Clashes.bind (h : Clashes m r) (f : Unit → Eval Unit) (g : Unit → Recorded Json ℤ Unit) :
    Clashes (m >>= f) (r >>= g) := by
  rcases h with hr | ⟨c, s, hr, hm, hne⟩
  · exact .inl (congrArg Recorded.result (Recorded.bind_of_error g hr))
  · exact .inr ⟨c, s, congrArg Recorded.result (Recorded.bind_of_error g hr),
      congrArg Recorded.result (Recorded.bind_of_error f hm), hne⟩

theorem Clashes.bind_right (hr : r.result = .ok ()) (hm : m.result = .ok ())
    (h : Clashes m' r') : Clashes (m >>= fun _ => m') (r >>= fun _ => r') := by
  rw [Recorded.bind_of_ok _ hm, Recorded.bind_of_ok _ hr]
  exact h

theorem Clashes.explodeElement {e : Json} (h : Clashes (next (some e)) r) :
    Clashes (explodeElement next e) r := by
  rcases h with hr | ⟨c, s, hr, hm, hne⟩
  · exact .inl hr
  · refine .inr ⟨c, s, hr, ?_, hne⟩
    exact congrArg Recorded.result (Recorded.bind_of_error
      (fun _ => (Recorded.record .newline : Eval Unit)) hm)

/-- A run that matches and one that clashes are told apart by what is thrown. -/
theorem Clashes.not_matches (h : Clashes m r) (hknown : m.StopsIn Stop.Known) :
    ¬ Matches flags m r := by
  intro hmatches
  rcases h with hr | ⟨c, s, hr, hm, hne⟩
  · obtain ⟨text, hm⟩ := hmatches.error _ hr
    exact absurd (hknown _ hm) (by decide : ¬ JQ_ARRAY_INDEX_OUT_OF_BOUNDS ∈ knownCodes)
  · obtain ⟨text, hm'⟩ := hmatches.error c hr
    rw [hm] at hm'
    exact hne text (Except.error.inj hm')

/-- The elements of an array, by induction. -/
theorem matches_explode {f : Json → Recorded Json ℤ Unit} {es : List Json}
    (h : ∀ before e after, es = before ++ e :: after → (∀ b ∈ before, (f b).result = .ok ()) →
      Matches flags (next (some e)) (f e)) :
    Matches flags (es.forM (explodeElement next)) (es.forM f) := by
  induction es with
  | nil => exact ⟨rfl, fun _ => rfl, fun c hc => (by cases hc)⟩
  | cons e es ih =>
    have he := (h [] e es rfl (List.forall_mem_nil _)).explodeElement
    refine he.bind fun hok => ih fun before e' after hes hbefore => ?_
    exact h (e :: before) e' after (by rw [hes]; rfl) (List.forall_mem_cons.mpr ⟨hok, hbefore⟩)

/-- An element whose run clashes, or one before it, is where the run over all of them does. -/
theorem clashes_explode {f : Json → Recorded Json ℤ Unit} {es before after : List Json} {e : Json}
    (hes : es = before ++ e :: after) (hbefore : ∀ b ∈ before, (f b).result = .ok ())
    (hrun : ∀ b ∈ before, Matches flags (next (some b)) (f b) ∨ Clashes (next (some b)) (f b))
    (he : Clashes (next (some e)) (f e)) :
    Clashes (es.forM (explodeElement next)) (es.forM f) := by
  induction before generalizing es with
  | nil =>
    rw [hes]
    exact he.explodeElement.bind _ _
  | cons b before ih =>
    obtain ⟨hb, hbefore⟩ := List.forall_mem_cons.mp hbefore
    obtain ⟨hrunb, hrun⟩ := List.forall_mem_cons.mp hrun
    rw [hes]
    rcases hrunb with hmatches | hclashes
    · exact Clashes.bind_right hb (hmatches.explodeElement.ok hb) (ih rfl hbefore hrun)
    · exact hclashes.explodeElement.bind _ _

end Runs

theorem arrayIndex_of_lt {n : Numeral} (h : n.value < 2 ^ 31) : n.arrayIndex = n.value := by
  have hnat : (BitVec.ofNat 32 n.value).toNat = n.value := by
    rw [BitVec.toNat_ofNat]
    omega
  rw [Numeral.arrayIndex, Nat.min_eq_left (by omega), BitVec.toInt_eq_toNat_cond, hnat]
  omega

/-- An index below the size of the array is the one that is read. -/
theorem evalDetails_index_of_getElem? {next : Option Json → Eval Unit} {n : Numeral}
    {es : List Json} {w : Json} (hsize : es.length < 2 ^ 31) (hw : es[n.value]? = some w) :
    evalDetails next (some (.array es)) INDEX (Traversal.index n).details = next (some w) := by
  have hlt := (List.getElem?_eq_some_iff.mp hw).1
  have hindex := arrayIndex_of_lt (n := n) (by omega)
  have hitem : jsonArrayItem es n.arrayIndex = pure (some w) := by
    rw [hindex, jsonArrayItem, if_pos (by omega), if_pos (by omega), Int.toNat_natCast, hw]
  rw [evalDetails_index, if_neg (by omega)]
  change (jsonArrayItem es n.arrayIndex >>= next) = _
  rw [hitem, pure_bind]

theorem ArraysFit.of_lookup {ps : JsonObject} {name : CString} {w : Json}
    (h : ArraysFit (.object ps)) (hw : Json.lookup ps name = some w) : ArraysFit w := by
  cases h with
  | object values =>
    obtain ⟨p, hp, rfl⟩ := Option.map_eq_some_iff.mp hw
    exact values p (List.mem_of_find?_eq_some hp)

theorem ArraysFit.of_mem {es : List Json} {w : Json} (h : ArraysFit (.array es)) (hw : w ∈ es) :
    ArraysFit w := by
  cases h with
  | array size elements => exact elements w hw

theorem ArraysFit.length_lt {es : List Json} (h : ArraysFit (.array es)) :
    es.length < 2 ^ 31 := by
  cases h with
  | array size elements => exact size

section Follow

variable {ctx : JQEvalContext} {next : Option Json → Eval Unit} {ts : List Traversal}

/-- One traversal that can be followed, by the kinds of traversals and of values. -/
theorem matches_evalDetails
    (hnext : ∀ value, ArraysFit value → Followable ts value →
      Matches ctx.flags (next (some value)) (reached ts value))
    (t : Traversal) {value : Json} (hfit : ArraysFit value) (h : Followable (t :: ts) value) :
    Matches ctx.flags (evalDetails next (some value) t.id t.details) (reached (t :: ts) value) := by
  have hthrown : ∀ c text, Matches ctx.flags (jqEvalThrow c text) (Recorded.stop c) := by
    intro c text
    refine ⟨rfl, fun hok => (by cases hok), fun c' hc => ?_⟩
    cases hc
    exact ⟨_, rfl⟩
  cases t with
  | index n =>
    rw [Traversal.id]
    rcases value with s | ps | es
    · rw [evalDetails_index, if_neg h]
      exact hthrown _ _
    · rw [evalDetails_index, if_neg h]
      exact hthrown _ _
    · obtain ⟨w, hw, hrest⟩ := h
      rw [evalDetails_index_of_getElem? hfit.length_lt hw, reached, hw]
      exact hnext w (hfit.of_mem (List.mem_of_getElem? hw)) hrest
  | pick name =>
    rw [Traversal.id, evalDetails_pick]
    rcases value with s | ps | es
    · exact hthrown _ _
    · change Matches _ (getJQProperty ps name >>= fun w => next (some w)) _
      rw [getJQProperty, reached]
      cases hw : Json.lookup ps name with
      | none => exact hthrown _ _
      | some w => exact hnext w (hfit.of_lookup hw) (h w hw)
    · exact hthrown _ _
  | explode =>
    rw [Traversal.id, evalDetails_explode]
    rcases value with s | ps | es
    · exact hthrown _ _
    · exact hthrown _ _
    · refine matches_explode fun before e after hes hbefore => ?_
      exact hnext e (hfit.of_mem (by simp [hes])) (h before e after hes hbefore)
  | context => exact hnext value hfit h

theorem clashes_evalDetails
    (hnext : ∀ value, ArraysFit value → Followable ts value →
      Matches ctx.flags (next (some value)) (reached ts value))
    (hclash : ∀ value, ArraysFit value → ¬ Followable ts value →
      Clashes (next (some value)) (reached ts value))
    (t : Traversal) {value : Json} (hfit : ArraysFit value) (h : ¬ Followable (t :: ts) value) :
    Clashes (evalDetails next (some value) t.id t.details) (reached (t :: ts) value) := by
  have hdefault : ∀ n : Numeral, ¬ n.arrayIndex ≠ -1 → Clashes
      (evalDetails next (some value) INDEX (Traversal.index n).details)
      (Recorded.stop JQ_NOT_AN_ARRAY) := by
    intro n hn
    rw [evalDetails_index, if_pos (not_not.mp hn)]
    refine .inr ⟨_, _, rfl, rfl, fun text hthrown => ?_⟩
    exact absurd (Stop.thrown.inj hthrown).1 (by decide)
  cases t with
  | index n =>
    rw [Traversal.id]
    rcases value with s | ps | es
    · exact hdefault n h
    · exact hdefault n h
    · rw [reached]
      cases hw : es[n.value]? with
      | none => exact .inl rfl
      | some w =>
        rw [evalDetails_index_of_getElem? hfit.length_lt hw]
        exact hclash w (hfit.of_mem (List.mem_of_getElem? hw)) fun hrest => h ⟨w, hw, hrest⟩
  | pick name =>
    rw [Traversal.id, evalDetails_pick]
    rcases value with s | ps | es
    · exact absurd trivial h
    · change Clashes (getJQProperty ps name >>= fun w => next (some w)) _
      rw [getJQProperty, reached]
      cases hw : Json.lookup ps name with
      | none =>
        refine absurd (fun w hw' => ?_) h
        rw [hw] at hw'
        cases hw'
      | some w =>
        refine hclash w (hfit.of_lookup hw) fun hrest => h fun w' hw' => ?_
        rw [hw] at hw'
        cases hw'
        exact hrest
    · exact absurd trivial h
  | explode =>
    rw [Traversal.id, evalDetails_explode]
    rcases value with s | ps | es
    · exact absurd trivial h
    · exact absurd trivial h
    · rw [Followable] at h
      push Not at h
      obtain ⟨before, e, after, hes, hbefore, hnot⟩ := h
      have hrun : ∀ b ∈ before, Matches ctx.flags (next (some b)) (reached ts b) ∨
          Clashes (next (some b)) (reached ts b) := by
        intro b hb
        have hfitb : ArraysFit b := hfit.of_mem (by simp [hes, hb])
        by_cases hfollow : Followable ts b
        · exact .inl (hnext b hfitb hfollow)
        · exact .inr (hclash b hfitb hfollow)
      exact clashes_explode hes hbefore hrun (hclash e (hfit.of_mem (by simp [hes])) hnot)
  | context => exact hclash value hfit h

/-- By induction on the traversals that are left. -/
theorem matches_evalRest {first : Traversal} {more : List Traversal} {index : ℕ}
    (hdrop : (first :: more).drop index = ts) {value : Json} (hfit : ArraysFit value)
    (h : Followable ts value) :
    Matches ctx.flags (evalRest ctx (filterTree first more) ts index (some value))
      (reached ts value) := by
  induction ts generalizing index value with
  | nil =>
    change Matches _ (jqPrint ctx (some value)) (Recorded.record value)
    rw [jqPrint_some]
    refine ⟨?_, fun _ => rfl, fun c hc => (by cases hc)⟩
    have hvalue : (shown ctx.flags value).isValue = true := by
      rcases value with (n | n | n | s | b) | ps | es
      case scalar.string =>
        rw [shown]
        split_ifs <;> rfl
      all_goals rfl
    exact List.filter_cons_of_pos hvalue
  | cons t ts ih =>
    have hnext := fun v (hv : ArraysFit v) hf => ih (drop_succ hdrop) hv hf
    rw [evalRest_cons ctx _ hdrop, traced]
    split_ifs
    · exact (matches_evalDetails hnext t hfit h).message _
    · exact matches_evalDetails hnext t hfit h

theorem clashes_evalRest {first : Traversal} {more : List Traversal} {index : ℕ}
    (hdrop : (first :: more).drop index = ts) {value : Json} (hfit : ArraysFit value)
    (h : ¬ Followable ts value) :
    Clashes (evalRest ctx (filterTree first more) ts index (some value)) (reached ts value) := by
  induction ts generalizing index value with
  | nil => exact absurd trivial h
  | cons t ts ih =>
    have hnext := fun v (hv : ArraysFit v) hf =>
      (matches_evalRest (drop_succ hdrop) hv hf : Matches ctx.flags _ _)
    have hclash := fun v (hv : ArraysFit v) hf => ih (drop_succ hdrop) hv hf
    rw [evalRest_cons ctx _ hdrop, traced]
    split_ifs
    · exact clashes_evalDetails hnext hclash t hfit h
    · exact clashes_evalDetails hnext hclash t hfit h

end Follow

/-- Up to the first traversal every node of the tree is as it is expected. -/
theorem evalJQ_jqTree (value : Json) (first : Traversal) (more : List Traversal) (flags : ℕ)
    (traceLevel : ℤ) :
    evalJQ value (jqTree first more) flags traceLevel =
      finished (evalRest ⟨flags, traceLevel⟩ (filterTree first more) (first :: more) 0
        (some value)) := by
  have hlength : (more.map Traversal.tree).length = more.length := List.length_map _
  have hfilter : evalFilter ⟨flags, traceLevel⟩ value (filterTree first more) =
      evalTraversal ⟨flags, traceLevel⟩ (filterTree first more)
        (more.map Traversal.tree).length 0 (some value) := rfl
  have halt : getJQInt [(key "altID", .scalar (.number (BitVec.ofInt 32 FILTER))),
      (key "value", filterTree first more)] (key "altID") = pure FILTER := rfl
  have hoperation : evalOperation ⟨flags, traceLevel⟩ value
      (buildAlt FILTER (filterTree first more)) =
        evalFilter ⟨flags, traceLevel⟩ value (filterTree first more) := by
    have hobject : jqCastToObject (some (buildAlt FILTER (filterTree first more))) = pure
        [(key "altID", .scalar (.number (BitVec.ofInt 32 FILTER))),
          (key "value", filterTree first more)] := rfl
    rw [evalOperation, hobject, pure_bind, halt, pure_bind, if_pos rfl]
    rfl
  rw [evalRest, ← hlength, ← hfilter, ← hoperation]
  rfl

/-- What is written and returned for a run, once its messages are left out. -/
theorem filter_finished (run : Eval Unit) :
    (finished run).events.filter Output.isValue = run.events.filter Output.isValue := by
  rw [finished]
  rcases run.result with (⟨c, text⟩ | -) | u
  · rw [List.filter_append]
    exact List.append_nil _
  · rfl
  · rfl

theorem freshlyPrinted_finished {run : Eval Unit} (h : FreshlyPrinted true run.events) :
    FreshlyPrinted true (finished run).events := by
  rw [finished]
  rcases run.result with (⟨c, text⟩ | -) | u
  · exact freshlyPrinted_append h fun fresh => trivial
  · exact h
  · exact h

/-- A run returns what the traversals do exactly when it stops where they do, because no code that
is thrown is that of success. -/
theorem result_finished_iff {run : Eval Unit} {r : Recorded Json ℤ Unit}
    (hknown : run.StopsIn Stop.Known) (hstops : r.StopsIn (· ≠ JQ_SUCCESS)) :
    (finished run).result = .ok (returnCode r.result) ↔
      (r.result = .ok () → run.result = .ok ()) ∧
        ∀ c, r.result = .error c → ∃ text, run.result = .error (.thrown c text) := by
  rw [finished]
  rcases hrun : run.result with (⟨c, text⟩ | -) | u
  · have hc : c ∈ knownCodes := hknown _ hrun
    cases hr : r.result with
    | ok u' =>
      refine iff_of_false (fun h => ?_) fun h => (by cases h.1 rfl)
      rw [Except.ok.inj h] at hc
      exact absurd hc (by decide : ¬ JQ_SUCCESS ∈ knownCodes)
    | error c' =>
      refine ⟨fun h => ⟨fun hok => (by cases hok), fun c'' hc'' => ?_⟩, fun h => ?_⟩
      · cases hc''
        exact ⟨text, by rw [show c = c' from Except.ok.inj h]⟩
      · obtain ⟨text', htext⟩ := h.2 c' rfl
        cases htext
        rfl
  · refine iff_of_false (fun h => (by cases h)) fun h => ?_
    cases hr : r.result with
    | ok u' => cases h.1 hr
    | error c =>
      obtain ⟨text, htext⟩ := h.2 c hr
      cases htext
  · cases hr : r.result with
    | ok u' => exact iff_of_true rfl ⟨fun _ => rfl, fun c hc => (by cases hc)⟩
    | error c =>
      refine iff_of_false (fun h => ?_) fun h => ?_
      · exact hstops c hr (Except.ok.inj h).symm
      · obtain ⟨text, htext⟩ := h.2 c rfl
        cases htext

/-- The traversals never stop with the code of success. By induction on them. -/
theorem stopsIn_reached (ts : List Traversal) (value : Json) :
    (reached ts value).StopsIn (· ≠ JQ_SUCCESS) := by
  induction ts generalizing value with
  | nil => exact Recorded.stopsIn_of_ok rfl
  | cons t ts ih =>
    cases t with
    | index n =>
      rcases value with s | ps | es
      · exact Recorded.stopsIn_stop (by decide)
      · exact Recorded.stopsIn_stop (by decide)
      · rw [reached]
        cases es[n.value]? with
        | none => exact Recorded.stopsIn_stop (by decide)
        | some w => exact ih w
    | pick name =>
      rcases value with s | ps | es
      · exact Recorded.stopsIn_stop (by decide)
      · rw [reached]
        cases Json.lookup ps name with
        | none => exact Recorded.stopsIn_stop (by decide)
        | some w => exact ih w
      · exact Recorded.stopsIn_stop (by decide)
    | explode =>
      rcases value with s | ps | es
      · exact Recorded.stopsIn_stop (by decide)
      · exact Recorded.stopsIn_stop (by decide)
      · exact Recorded.StopsIn.forM ih es
    | context => exact ih value

/-- The traversals are followed exactly when each index that comes up is below the size of its
array, or is applied to no array and is not converted to -1. -/
theorem followsPath_iff {value : Json} (hfit : ArraysFit value) (flags : ℕ) (traceLevel : ℤ)
    (first : Traversal) (more : List Traversal) :
    FollowsPath flags traceLevel value first more ↔ Followable (first :: more) value := by
  have hdrop : (first :: more).drop 0 = first :: more := rfl
  have hknown := stopsIn_evalRest ⟨flags, traceLevel⟩ hdrop (some value)
  have hresult := result_finished_iff hknown (stopsIn_reached (first :: more) value)
  have heval := evalJQ_jqTree value first more flags traceLevel
  constructor
  · intro h
    by_contra hnot
    have hclash := @clashes_evalRest ⟨flags, traceLevel⟩ _ _ _ _ hdrop _ hfit hnot
    have hvalues := h.values
    have hcode := h.result
    rw [heval, filter_finished] at hvalues
    rw [heval, hresult] at hcode
    exact hclash.not_matches hknown (⟨hvalues, hcode.1, hcode.2⟩ : Matches flags _ _)
  · intro h
    have hmatches := @matches_evalRest ⟨flags, traceLevel⟩ _ _ _ _ hdrop _ hfit h
    refine ⟨?_, ?_, ?_⟩
    · rw [heval, filter_finished]
      exact hmatches.values
    · rw [heval]
      exact freshlyPrinted_finished (freshlyPrinted_evalRest _ hdrop (some value))
    · rw [heval, hresult]
      exact ⟨hmatches.ok, hmatches.error⟩

/-- `[0]` on `[null]`. -/
theorem followsPath_iff_first :
    FollowsPath 0 0 (.array [.scalar .null]) (.index ⟨[0], by decide, by decide⟩) [] :=
  (followsPath_iff (.array (by decide) (by simp [ArraysFit.scalar])) 0 0 _ []).mpr
    ⟨.scalar .null, rfl, trivial⟩

/-- `[5]` on `[null]` prints what no pointer leads to. -/
theorem not_followsPath : ¬ ∀ flags traceLevel value first more,
    FollowsPath flags traceLevel value first more := by
  intro h
  have hresult := (h 0 0 (.array [.scalar .null]) (.index ⟨[5], by decide, by decide⟩) []).result
  have hmissing : (evalJQ (.array [.scalar .null])
      (jqTree (.index ⟨[5], by decide, by decide⟩) []) 0 0).result =
        .error .undefinedBehaviour := rfl
  rw [hmissing] at hresult
  cases hresult

end Jq
end ZoweCommon
