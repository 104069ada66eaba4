import ZoweCommon.Json.Equality
import ZoweCommon.Schema.PropertySchemas

/-! What is valid where a schema names the values. -/
namespace ZoweCommon
namespace JsonSchema

open CLibrary CString

variable {platform : Platform} {validator : JsonValidator} {valueSpec : JSValueSpec}
  {st : ValidatorState}

/-- The same kind of scalar, with the same content. -/
def SameScalar (v w : Json) : Prop := ∃ s, v = .scalar s ∧ w = .scalar s

/-- The memory of a value is cleared before its fields are set. -/
def Cleared (platform : Platform) : Prop :=
  ∀ place spec n, platform.sameUnsetBytes place spec n = true

/-- Objects and arrays are not compared. -/
theorem jsonEquals_iff (hcleared : Cleared platform) (value : Value) (w : Json) (spec n : ℕ) :
    jsonEquals platform value w spec n = true ↔ SameScalar value.json w := by
  obtain ⟨place, json⟩ := value
  unfold jsonEquals SameScalar
  cases json with
  | object properties => simp
  | array elements => simp
  | scalar s =>
    cases w with
    | object properties =>
      cases s with
      | null | boolean b | string s | number n | double bits | int64 n => simp
    | array elements =>
      cases s with
      | null | boolean b | string s | number n | double bits | int64 n => simp
    | scalar t =>
      cases s with
      | string s =>
        cases t with
        | null | boolean b | string t | number n | double bits | int64 n => simp [eq_comm]
      | null | boolean b | number m | double bits | int64 m => simp [hcleared place spec n, eq_comm]

theorem validateConst_eq_ok (hcleared : Cleared platform) {path : List Byte}
    (hpath : validatorAccessPath st.accessPath = .ok path) (value : Value) (spec : ℕ) (w : Json) :
    ∃ result, validateConst platform st value spec valueSpec w = .ok result ∧
      (vStatusValid result.status = true ↔ SameScalar value.json w) := by
  unfold validateConst
  by_cases hequals : jsonEquals platform value w spec 0 = true
  · rw [if_pos hequals]
    exact ⟨simpleSuccess, rfl, iff_of_true rfl ((jsonEquals_iff hcleared value w spec 0).mp hequals)⟩
  · have hnot : ¬ SameScalar value.json w :=
      fun hsame => hequals ((jsonEquals_iff hcleared value w spec 0).mpr hsame)
    rw [if_neg hequals, hpath, Exec.ok_bind]
    cases w with
    | object properties => exact ⟨_, rfl, iff_of_false Bool.false_ne_true hnot⟩
    | array elements => exact ⟨_, rfl, iff_of_false Bool.false_ne_true hnot⟩
    | scalar s =>
      cases s with
      | null | boolean b | string s | number n | double bits | int64 n =>
        exact ⟨_, rfl, iff_of_false Bool.false_ne_true hnot⟩

/-- The text of the members, as long as none of them matches. -/
def collectedValues : List Byte → List Json → List Byte
  | validValues, [] => validValues
  | validValues, enumValue :: enumValues =>
    let validValues := validValues ++ enumText enumValue
    let separator := if validValues ≠ [] ∧ enumValues ≠ [] then ascii ", " else []
    collectedValues (validValues ++ separator) enumValues

theorem length_le_collectedValues (validValues : List Byte) (enumValues : List Json) :
    validValues.length ≤ (collectedValues validValues enumValues).length := by
  induction enumValues generalizing validValues with
  | nil => exact le_rfl
  | cons enumValue enumValues ih =>
    refine le_trans ?_ (ih _)
    rw [List.append_assoc, List.length_append]
    exact Nat.le_add_right _ _

/-- The buffer for the message is large enough for the members. -/
def EnumFits (enumeratedValues : List Json) : Prop :=
  (collectedValues [] enumeratedValues).length < enumeratedValues.length * (8 + 3) + 1

instance (enumeratedValues : List Json) : Decidable (EnumFits enumeratedValues) :=
  inferInstanceAs (Decidable (_ < _))

/-- By induction on the members. -/
theorem enumLoop_eq_ok (hcleared : Cleared platform) (value : Value) (spec size : ℕ)
    (enumValues : List Json) (ee : ℕ) (validValues : List Byte)
    (hfits : (collectedValues validValues enumValues).length < size) :
    ∃ matched text, enumLoop platform value spec size ee validValues enumValues =
        .ok (matched, text) ∧
      (matched = true ↔ ∃ w ∈ enumValues, SameScalar value.json w) := by
  induction enumValues generalizing ee validValues with
  | nil => exact ⟨false, validValues, rfl, by simp⟩
  | cons enumValue enumValues ih =>
    rw [enumLoop]
    by_cases hequals : jsonEquals platform value enumValue spec ee = true
    · rw [if_pos hequals]
      refine ⟨true, validValues, rfl, iff_of_true rfl ?_⟩
      exact ⟨enumValue, List.mem_cons_self, (jsonEquals_iff hcleared value _ spec ee).mp hequals⟩
    · have hnot : ¬ SameScalar value.json enumValue :=
        fun hsame => hequals ((jsonEquals_iff hcleared value _ spec ee).mpr hsame)
      rw [collectedValues] at hfits
      obtain ⟨matched, text, hrun, hmatched⟩ := ih (ee + 1) _ hfits
      have hlength := length_le_collectedValues
        (validValues ++ enumText enumValue ++
          if validValues ++ enumText enumValue ≠ [] ∧ enumValues ≠ [] then ascii ", " else [])
        enumValues
      refine ⟨matched, text, ?_, ?_⟩
      · rw [if_neg hequals]
        dsimp only at hfits hrun hlength ⊢
        rw [List.length_append] at hlength
        have hfirst : validValues.length + (enumText enumValue).length < size := by
          rw [List.length_append] at hlength
          omega
        rw [if_pos hfirst, pure_bind, if_pos (by omega), pure_bind]
        exact hrun
      · rw [hmatched, List.exists_mem_cons_iff, or_iff_right hnot]

/-- A null that the level does not permit is looked for as an empty string, if it permits strings. -/
def lookedFor (validator : JsonValidator) (valueSpec : JSValueSpec) (json : Json) : Json :=
  match json with
  | .scalar .null =>
    if !valueSpec.permits JSTYPE_NULL && validator.allowStringToBeNull &&
        valueSpec.permits JSTYPE_STRING then .scalar (.string (ofBytes []))
    else json
  | json => json

theorem validateType_eq_ok {path : List Byte} (hpath : validatorAccessPath st.accessPath = .ok path)
    (typeCode : ℕ) : ∃ result, validateType st typeCode valueSpec = .ok result ∧
      vStatusValid result.status = valueSpec.permits typeCode := by
  unfold validateType
  rw [hpath]
  cases valueSpec.permits typeCode with
  | true => exact ⟨simpleSuccess, rfl, rfl⟩
  | false => exact ⟨_, rfl, rfl⟩

/-- The loop, and the message where it finds nothing. -/
theorem enumVerdict_eq_ok (hcleared : Cleared platform) {path : List Byte}
    (hpath : validatorAccessPath st.accessPath = .ok path) (whichValue : Value) (spec : ℕ)
    {enumeratedValues : List Json} (hfits : EnumFits enumeratedValues) :
    ∃ result, (do
      let (matched, validValues) ← enumLoop platform whichValue spec
        (enumeratedValues.length * (8 + 3) + 1) 0 [] enumeratedValues
      if matched then return simpleSuccess
      else
        let path ← validatorAccessPath st.accessPath
        if validValues ≠ [] then
          return simpleFailure [ascii "no matching enum value at ", path,
            ascii "; expecting one of values '[", validValues, ascii "]' of type '",
            getJSTypeName valueSpec.type, ascii "'"]
        else return simpleFailure [ascii "no matching enum value at ", path]) =
        Except.ok result ∧
      (vStatusValid result.status = true ↔
        ∃ w ∈ enumeratedValues, SameScalar whichValue.json w) := by
  obtain ⟨matched, text, hrun, hmatched⟩ := enumLoop_eq_ok hcleared whichValue spec
    (enumeratedValues.length * (8 + 3) + 1) enumeratedValues 0 [] hfits
  rw [hrun, Exec.ok_bind, ← hmatched]
  dsimp only
  cases matched with
  | true => exact ⟨simpleSuccess, rfl, iff_of_true rfl rfl⟩
  | false =>
    rw [if_neg Bool.false_ne_true, hpath, Exec.ok_bind]
    by_cases htext : text ≠ []
    · rw [if_pos htext]
      exact ⟨_, rfl, iff_of_false Bool.false_ne_true Bool.false_ne_true⟩
    · rw [if_neg htext]
      exact ⟨_, rfl, iff_of_false Bool.false_ne_true Bool.false_ne_true⟩

theorem validateEnum_eq_ok (hcleared : Cleared platform) {path : List Byte}
    (hpath : validatorAccessPath st.accessPath = .ok path) (value : Value) (spec : ℕ)
    {enumeratedValues : List Json} (hfits : EnumFits enumeratedValues) :
    ∃ result, validateEnum platform validator st value spec valueSpec enumeratedValues =
        .ok result ∧
      (vStatusValid result.status = true ↔
        ∃ w ∈ enumeratedValues, SameScalar (lookedFor validator valueSpec value.json) w) := by
  obtain ⟨place, json⟩ := value
  cases json with
  | object properties => exact enumVerdict_eq_ok hcleared hpath _ spec hfits
  | array elements => exact enumVerdict_eq_ok hcleared hpath _ spec hfits
  | scalar s =>
    cases s with
    | boolean b | string s | number n | double bits | int64 n =>
      exact enumVerdict_eq_ok hcleared hpath _ spec hfits
    | null =>
      have htype : ∃ result, validateType st JSTYPE_NULL valueSpec = .ok result ∧
          vStatusValid result.status = valueSpec.permits JSTYPE_NULL :=
        validateType_eq_ok hpath JSTYPE_NULL
      obtain ⟨typeResult, htype, hstatus⟩ := htype
      unfold validateEnum lookedFor
      dsimp only
      rw [htype, Exec.ok_bind, hstatus]
      split
      · exact enumVerdict_eq_ok hcleared hpath ⟨place, .scalar (.string (ofBytes []))⟩ spec hfits
      · exact enumVerdict_eq_ok hcleared hpath ⟨place, .scalar .null⟩ spec hfits

/-- What a level is that is asked for, apart from its evaluation set. -/
theorem validateJSON_of_const {fuel spec : ℕ} {value : Value} {w : Json}
    (hlevel : validator.specs[spec]? = some valueSpec) (href : valueSpec.ref = none)
    (hconst : valueSpec.constValue = some w) :
    validateJSON platform validator (fuel + 2) st value spec = (do
      return (← validateConst platform st.extendEvalSets value spec valueSpec w, st)) := by
  rw [validateJSON, followRefs_of_noRef hlevel href, Exec.ok_bind]
  dsimp only
  rw [specAt, hlevel]
  dsimp only
  rw [pure_bind, hconst]
  rfl

theorem validateJSON_of_enum {fuel spec : ℕ} {value : Value} {vs : List Json}
    (hlevel : validator.specs[spec]? = some valueSpec) (href : valueSpec.ref = none)
    (hconst : valueSpec.constValue = none) (henum : valueSpec.enumeratedValues = some vs) :
    validateJSON platform validator (fuel + 2) st value spec = (do
      return (← validateEnum platform validator st.extendEvalSets value spec valueSpec vs, st)) := by
  rw [validateJSON, followRefs_of_noRef hlevel href, Exec.ok_bind]
  dsimp only
  rw [specAt, hlevel]
  dsimp only
  rw [pure_bind, hconst, henum]
  rfl

/-- A constant is met by the same scalar, and an enumeration by the scalars that are in it. -/
theorem validateJSON_const_enum (hcleared : Cleared platform)
    (hpath : ∃ path, validatorAccessPath st.accessPath = .ok path) {c e : ℕ}
    {constSpec enumSpec : JSValueSpec} {w : Json} {vs : List Json}
    (hconstSpec : validator.specs[c]? = some constSpec) (hconstRef : constSpec.ref = none)
    (hconst : constSpec.constValue = some w) (henumSpec : validator.specs[e]? = some enumSpec)
    (henumRef : enumSpec.ref = none) (hnoConst : enumSpec.constValue = none)
    (henum : enumSpec.enumeratedValues = some vs) (hfits : EnumFits vs) (fuel : ℕ) (value : Value) :
    (∃ result, validateJSON platform validator (fuel + 2) st value c = .ok (result, st) ∧
      (vStatusValid result.status = true ↔ SameScalar value.json w)) ∧
    ∃ result, validateJSON platform validator (fuel + 2) st value e = .ok (result, st) ∧
      (vStatusValid result.status = true ↔
        ∃ v ∈ vs, SameScalar (lookedFor validator enumSpec value.json) v) := by
  obtain ⟨path, hpath⟩ := hpath
  have hextended : validatorAccessPath st.extendEvalSets.accessPath = .ok path := hpath
  constructor
  · obtain ⟨result, hrun, hvalid⟩ := validateConst_eq_ok hcleared hextended value c w
    refine ⟨result, ?_, hvalid⟩
    rw [validateJSON_of_const hconstSpec hconstRef hconst, hrun]
    rfl
  · obtain ⟨result, hrun, hvalid⟩ := validateEnum_eq_ok hcleared hextended value e hfits
    refine ⟨result, ?_, hvalid⟩
    rw [validateJSON_of_enum henumSpec henumRef hnoConst henum, hrun]
    rfl

/-- A level that allows all types. -/
def anyType : JSValueSpec := { typeMask := 0x7F }

def anyText : Json := .scalar (.string (ofBytes (ascii "any")))

theorem validateJSON_const_enum_string :
    (∃ result, validateJSON noPatterns
        ⟨[{ anyType with constValue := some anyText },
          { anyType with enumeratedValues := some [anyText] }], 0, [], true⟩ 2
        ⟨[], []⟩ ⟨[], anyText⟩ 0 = .ok (result, ⟨[], []⟩) ∧
      (vStatusValid result.status = true ↔ SameScalar anyText anyText)) ∧
    ∃ result, validateJSON noPatterns
        ⟨[{ anyType with constValue := some anyText },
          { anyType with enumeratedValues := some [anyText] }], 0, [], true⟩ 2
        ⟨[], []⟩ ⟨[], anyText⟩ 1 = .ok (result, ⟨[], []⟩) ∧
      (vStatusValid result.status = true ↔ ∃ v ∈ [anyText], SameScalar (lookedFor
        ⟨[{ anyType with constValue := some anyText },
          { anyType with enumeratedValues := some [anyText] }], 0, [], true⟩
        { anyType with enumeratedValues := some [anyText] } anyText) v) :=
  validateJSON_const_enum (fun _ _ _ => rfl) ⟨[], rfl⟩ rfl rfl rfl rfl rfl rfl rfl (by decide) 0 _

/-- An empty array is not valid where an empty array is asked for. -/
theorem not_valid_array :
    Json.Same (.array []) (.array []) ∧
      ∃ result st', validateJSON noPatterns
          ⟨[{ anyType with constValue := some (.array []) }], 0, [], true⟩ 2 ⟨[], []⟩
          ⟨[], .array []⟩ 0 = .ok (result, st') ∧ vStatusValid result.status = false :=
  ⟨.array .nil, _, _, rfl, rfl⟩

end JsonSchema
end ZoweCommon
