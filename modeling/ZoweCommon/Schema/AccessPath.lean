import ZoweCommon.Schema.Validator

/-! Where the access path of the validator is the same after a value as before it. -/
namespace ZoweCommon

namespace Json

mutual

/-- How many members one has to go down at most. -/
def nesting : Json → ℕ
  | .scalar _ => 0
  | .object ps => nestingProperties ps
  | .array es => nestingElements es

def nestingProperties : List (CString × Json) → ℕ
  | [] => 0
  | (_, v) :: ps => max (v.nesting + 1) (nestingProperties ps)

def nestingElements : List Json → ℕ
  | [] => 0
  | v :: es => max (v.nesting + 1) (nestingElements es)

end

end Json

namespace JsonSchema

open CLibrary CString

variable {platform : Platform} {validator : JsonValidator} {validate : Validate}
  {valueSpec : JSValueSpec} {st : ValidatorState}

/-- How many more elements the path can take. -/
def ValidatorState.room (st : ValidatorState) : ℕ := MAX_SCHEMA_DEPTH - st.accessPath.length

/-- A path is not longer than it was, and the same if there was room for `n` more elements. -/
structure Balanced (n : ℕ) (st st' : ValidatorState) : Prop where
  shorter : st'.accessPath.length ≤ st.accessPath.length
  same : n ≤ st.room → st'.accessPath = st.accessPath

namespace Balanced

variable {n m : ℕ} {st' st'' : ValidatorState}

theorem of_eq (h : st'.accessPath = st.accessPath) : Balanced n st st' :=
  ⟨(congrArg List.length h).le, fun _ => h⟩

theorem trans (h : Balanced n st st') (h' : Balanced n st' st'') : Balanced n st st'' := by
  refine ⟨h'.shorter.trans h.shorter, fun hroom => ?_⟩
  have hsame := h.same hroom
  have hroom' : n ≤ st'.room := by
    unfold ValidatorState.room
    rw [hsame]
    exact hroom
  exact (h'.same hroom').trans hsame

theorem mono (h : Balanced n st st') (hnm : n ≤ m) : Balanced m st st' :=
  ⟨h.shorter, fun hroom => h.same (hnm.trans hroom)⟩

/-- What is pushed where there is room is popped again; where it is not pushed, what was there
before is popped. -/
theorem member {element : PathElement} (h : Balanced n (st.push element) st') :
    Balanced (n + 1) st st'.pop := by
  have hpop : st'.pop.accessPath = st'.accessPath.dropLast := rfl
  by_cases hlt : st.accessPath.length < MAX_SCHEMA_DEPTH
  · have hpush : (st.push element).accessPath = st.accessPath ++ [element] := if_pos hlt
    have hlength : (st.push element).accessPath.length = st.accessPath.length + 1 := by
      rw [hpush, List.length_append, List.length_singleton]
    constructor
    · have hshorter := h.shorter
      rw [hpop, List.length_dropLast]
      omega
    · intro hroom
      unfold ValidatorState.room at hroom
      have hsame := h.same (by unfold ValidatorState.room; omega)
      rw [hpop, hsame, hpush, List.dropLast_concat]
  · have hpush : (st.push element).accessPath = st.accessPath := if_neg hlt
    constructor
    · have hshorter := h.shorter
      rw [hpop, List.length_dropLast]
      rw [hpush] at hshorter
      omega
    · intro hroom
      unfold ValidatorState.room at hroom
      omega

end Balanced

/-- A function pops what it pushes, as far as there is room for the members of the value. -/
def Balances (validate : Validate) : Prop :=
  ∀ st value spec,
    (validate st value spec).Returns fun r => Balanced value.json.nesting st r.2

/-- By induction on the properties: each one is popped after it was pushed. -/
theorem balanced_validateProperties (hvalidate : Balances validate) (object : List ℕ)
    (properties : List (CString × Json)) (n : ℕ) (st : ValidatorState) :
    (validateProperties platform validate valueSpec object n properties st).Returns
      fun r => Balanced (Json.nestingProperties properties) st r.2 := by
  induction properties generalizing n st with
  | nil => exact .ok (.of_eq rfl)
  | cons property properties ih =>
    obtain ⟨propertyName, propertyValue⟩ := property
    rw [Json.nestingProperties]
    have hmore (exceptions : List ValidityException) {st' : ValidatorState}
        (h : Balanced propertyValue.nesting (st.push (.name propertyName)) st') :
        (do
          let r ← validateProperties platform validate valueSpec object (n + 1) properties st'.pop
          return (exceptions ++ r.1, r.2) : Exec (List ValidityException × ValidatorState)).Returns
          fun r => Balanced (max (propertyValue.nesting + 1) (Json.nestingProperties properties))
            st r.2 := by
      refine (ih (n + 1) st'.pop).bind fun r hr => .ok ?_
      exact (h.member.mono (le_max_left ..)).trans (hr.mono (le_max_right ..))
    rw [validateProperties]
    cases getPropertyValueSpec platform valueSpec propertyName with
    | some propertySpec =>
      refine (hvalidate (st.push (.name propertyName)) ⟨object ++ [n], propertyValue⟩
        propertySpec).bind fun r hr => ?_
      have hnote : Balanced propertyValue.nesting (st.push (.name propertyName))
          (r.2.notePropertyEvaluation object propertyName) := hr.trans (.of_eq rfl)
      refine Exec.Returns.ite ?_ ?_
      · exact hmore [] hnote
      · exact hmore r.1.exception.toList hnote
    | none =>
      exact Exec.Returns.seq fun exceptions => hmore exceptions (.of_eq rfl)

theorem balanced_validateItems (hvalidate : Balances validate) (array : List ℕ)
    (elements : List Json) (i : ℕ) (uniquenessSet : List (BitVec 64)) (st : ValidatorState) :
    (validateItems platform validate valueSpec array i elements uniquenessSet st).Returns
      fun r => Balanced (Json.nestingElements elements) st r.2 := by
  induction elements generalizing i uniquenessSet st with
  | nil => exact .ok (.of_eq rfl)
  | cons item items ih =>
    rw [Json.nestingElements]
    have hmore (invalid : List ValidityException) {st' : ValidatorState}
        (h : Balanced item.nesting (st.push (.index i)) st') :
        (do
          let unique ← checkUnique platform valueSpec st' uniquenessSet ⟨array ++ [i], item⟩
          let r ← validateItems platform validate valueSpec array (i + 1) items unique.2 st'.pop
          return (invalid ++ unique.1 ++ r.1, r.2) :
            Exec (List ValidityException × ValidatorState)).Returns
          fun r => Balanced (max (item.nesting + 1) (Json.nestingElements items)) st r.2 := by
      refine Exec.Returns.seq fun unique => ?_
      refine (ih (i + 1) unique.2 st'.pop).bind fun r hr => .ok ?_
      exact (h.member.mono (le_max_left ..)).trans (hr.mono (le_max_right ..))
    rw [validateItems]
    cases valueSpec.itemSpec with
    | some itemSpec =>
      refine (hvalidate (st.push (.index i)) ⟨array ++ [i], item⟩ itemSpec).bind fun r hr => ?_
      refine Exec.Returns.ite ?_ ?_
      · exact hmore [] hr
      · exact hmore r.1.exception.toList hr
    | none => exact hmore [] (.of_eq rfl)

theorem balanced_validateJSONObject (hvalidate : Balances validate) (object : List ℕ)
    (properties : List (CString × Json)) (st : ValidatorState) :
    (validateJSONObject platform validate valueSpec st object properties).Returns
      fun r => Balanced (Json.object properties).nesting st r.2 := by
  refine Exec.Returns.seq fun missing => ?_
  refine (balanced_validateProperties hvalidate object properties 0 st).bind fun r hr => ?_
  exact Exec.Returns.seq fun count => Exec.Returns.seq fun result => .ok hr

theorem balanced_validateJSONArray (hvalidate : Balances validate) (array : List ℕ)
    (elements : List Json) (st : ValidatorState) :
    (validateJSONArray platform validate valueSpec st array elements).Returns
      fun r => Balanced (Json.array elements).nesting st r.2 := by
  refine Exec.Returns.seq fun count => ?_
  refine (balanced_validateItems hvalidate array elements 0 [] st).bind fun r hr => ?_
  exact Exec.Returns.seq fun result => .ok hr

/-- What only looks at the state leaves the path alone. -/
theorem balanced_checked {n : ℕ} (x : Exec VResult) (st : ValidatorState) :
    (do return (← x, st) : Exec (VResult × ValidatorState)).Returns fun r => Balanced n st r.2 :=
  Exec.Returns.seq fun _ => .ok (.of_eq rfl)

/-- By the kind of the value: only objects and arrays have members. -/
theorem balanced_validateJSONSimple (hvalidate : Balances validate) (value : Value)
    (st : ValidatorState) :
    (validateJSONSimple platform validator validate st value valueSpec).Returns
      fun r => Balanced value.json.nesting st r.2 := by
  obtain ⟨place, json⟩ := value
  cases json with
  | object properties =>
    refine Exec.Returns.seq fun typeResult => Exec.Returns.ite ?_ (.ok (.of_eq rfl))
    exact balanced_validateJSONObject hvalidate place properties st
  | array elements =>
    refine Exec.Returns.seq fun typeResult => Exec.Returns.ite ?_ (.ok (.of_eq rfl))
    exact balanced_validateJSONArray hvalidate place elements st
  | scalar s =>
    cases s with
    | boolean b => exact balanced_checked _ st
    | null =>
      refine Exec.Returns.seq fun typeResult => Exec.Returns.ite (.ok (.of_eq rfl)) ?_
      refine Exec.Returns.ite (Exec.Returns.ite ?_ ?_) (.ok (.of_eq rfl))
      · exact balanced_checked _ st
      · exact Exec.Returns.seq fun path => .ok (.of_eq rfl)
    | string s | number n | double bits | int64 n =>
      refine Exec.Returns.seq fun typeResult => Exec.Returns.ite ?_ (.ok (.of_eq rfl))
      exact balanced_checked _ st

theorem balanced_quantifierLoop (hvalidate : Balances validate) (value : Value)
    (quantType : Quantifier) (valueSpecs : List ℕ) (st : ValidatorState) (validCount : ℕ)
    (pending : List ValidityException) :
    (quantifierLoop validate value quantType st validCount pending valueSpecs).Returns
      fun r => Balanced value.json.nesting st r.2 := by
  induction valueSpecs generalizing st validCount pending with
  | nil =>
    cases quantType with
    | QUANT_ALL => exact .ok (.of_eq rfl)
    | QUANT_ANY => exact Exec.Returns.seq fun path => .ok (.of_eq rfl)
    | QUANT_ONE =>
      refine Exec.Returns.ite ?_ (.ok (.of_eq rfl))
      exact Exec.Returns.seq fun path => .ok (.of_eq rfl)
  | cons spec specs ih =>
    refine (hvalidate st value spec).bind fun r hr => ?_
    have hmore (validCount : ℕ) (pending : List ValidityException) :
        (quantifierLoop validate value quantType r.2 validCount pending specs).Returns
          fun r => Balanced value.json.nesting st r.2 :=
      fun r' hr' => hr.trans (ih r.2 validCount pending r' hr')
    cases quantType with
    | QUANT_ALL =>
      refine Exec.Returns.ite (hmore _ _) ?_
      exact Exec.Returns.seq fun path => .ok hr
    | QUANT_ANY => exact Exec.Returns.ite (.ok hr) (hmore _ _)
    | QUANT_ONE => exact Exec.Returns.ite (.error _ _) (hmore _ _)

theorem balanced_validateQuantifiedSpecs (hvalidate : Balances validate) (value : Value)
    (valueSpecs : Option (List ℕ)) (quantType : Quantifier) (st : ValidatorState) :
    (validateQuantifiedSpecs validate st value valueSpecs quantType).Returns
      fun r => Balanced value.json.nesting st r.2 := by
  cases valueSpecs with
  | none => exact .ok (.of_eq rfl)
  | some valueSpecs => exact balanced_quantifierLoop hvalidate value quantType valueSpecs st 0 []

theorem balanced_validateNot (hvalidate : Balances validate) (value : Value)
    (st : ValidatorState) :
    (validateNot validate st value valueSpec).Returns
      fun r => Balanced value.json.nesting st r.2 := by
  rw [validateNot]
  cases valueSpec.not with
  | none => exact .ok (.of_eq rfl)
  | some notSpec =>
    refine (hvalidate st value notSpec).bind fun r hr => ?_
    exact Exec.Returns.ite (Exec.Returns.seq fun path => .ok hr) (.ok hr)

theorem balanced_validateQuantifiers (hvalidate : Balances validate) (value : Value)
    (st : ValidatorState) :
    (validateQuantifiers platform validator validate st value valueSpec).Returns
      fun r => Balanced value.json.nesting st r.2 := by
  refine (balanced_validateQuantifiedSpecs hvalidate value valueSpec.allOf .QUANT_ALL st).bind
    fun r₁ h₁ => ?_
  refine (balanced_validateQuantifiedSpecs hvalidate value valueSpec.anyOf .QUANT_ANY r₁.2).bind
    fun r₂ h₂ => ?_
  refine (balanced_validateQuantifiedSpecs hvalidate value valueSpec.oneOf .QUANT_ONE r₂.2).bind
    fun r₃ h₃ => ?_
  refine (balanced_validateNot hvalidate value r₃.2).bind fun r₄ h₄ => ?_
  refine (balanced_validateJSONSimple hvalidate value r₄.2).bind fun r₅ h₅ => ?_
  have h : Balanced value.json.nesting st r₅.2 :=
    (((h₁.trans h₂).trans h₃).trans h₄).trans h₅
  refine Exec.Returns.ite (.ok h) (Exec.Returns.ite (.ok h) ?_)
  exact Exec.Returns.seq fun path => Exec.Returns.seq fun message => .ok h

/-- By induction on the fuel: a call of its own only adds an evaluation set. -/
theorem balances_validateJSON (platform : Platform) (validator : JsonValidator) (fuel : ℕ) :
    Balances (validateJSON platform validator fuel) := by
  induction fuel with
  | zero => exact fun st value spec => .error _ _
  | succ fuel ih =>
    intro st value spec
    refine Exec.Returns.seq fun resolved => ?_
    cases resolved with
    | error message => exact .ok (.of_eq rfl)
    | ok spec =>
      refine Exec.Returns.seq fun valueSpec => ?_
      dsimp only
      cases valueSpec.constValue with
      | some constValue => exact Exec.Returns.seq fun result => .ok (.of_eq rfl)
      | none =>
        cases valueSpec.enumeratedValues with
        | some enumeratedValues => exact Exec.Returns.seq fun result => .ok (.of_eq rfl)
        | none =>
          refine (balanced_validateQuantifiers ih value st.extendEvalSets).bind fun r hr => .ok ?_
          have hextend : Balanced value.json.nesting st st.extendEvalSets := .of_eq rfl
          exact (hextend.trans hr).trans (.of_eq rfl)

/-! A schema that goes down into all the members of a value -/

def anyMatch : Platform where
  regexComp := fun _ => true
  regexExec := fun _ _ => some []
  address := fun _ => 0
  sameUnsetBytes := fun _ _ _ => true
  valueAsText := fun _ => []

def anything : JSValueSpec :=
  { typeMask := BitVec.allOnes 32, patternProperties := [(ofBytes [], 0)], itemSpec := some 0 }

def anyValidator : JsonValidator := ⟨[anything], 0, [], true⟩

/-- A path got shorter if there was no room for `n` more elements, and not longer in any case. -/
structure Descended (n : ℕ) (st st' : ValidatorState) : Prop where
  shorter : st'.accessPath.length ≤ st.accessPath.length
  lost : st.room < n → st.accessPath ≠ [] → st'.accessPath.length < st.accessPath.length

namespace Descended

variable {n m : ℕ} {st' st'' : ValidatorState}

theorem of_eq (h : st'.accessPath = st.accessPath) : Descended 0 st st' :=
  ⟨(congrArg List.length h).le, fun hroom => absurd hroom (Nat.not_lt_zero _)⟩

theorem trans (h : Descended n st st') (h' : Descended m st' st'') :
    Descended (max n m) st st'' := by
  refine ⟨h'.shorter.trans h.shorter, fun hroom hpath => ?_⟩
  rcases lt_max_iff.mp hroom with hn | hm
  · exact h'.shorter.trans_lt (h.lost hn hpath)
  · rcases h.shorter.lt_or_eq with hlt | heq
    · exact h'.shorter.trans_lt hlt
    · have hroom' : st'.room = st.room := congrArg (MAX_SCHEMA_DEPTH - ·) heq
      have hpath' : st'.accessPath ≠ [] := by
        rw [← List.length_pos_iff, heq]
        exact List.length_pos_iff.mpr hpath
      exact heq ▸ h'.lost (hroom'.trans_lt hm) hpath'

theorem member {element : PathElement} (h : Descended n (st.push element) st') :
    Descended (n + 1) st st'.pop := by
  have hpop : st'.pop.accessPath.length = st'.accessPath.length - 1 := List.length_dropLast
  have hshorter := h.shorter
  by_cases hlt : st.accessPath.length < MAX_SCHEMA_DEPTH
  · have hpush : (st.push element).accessPath = st.accessPath ++ [element] := if_pos hlt
    have hlength : (st.push element).accessPath.length = st.accessPath.length + 1 := by
      rw [hpush, List.length_append, List.length_singleton]
    refine ⟨by omega, fun hroom hpath => ?_⟩
    have hpos := List.length_pos_iff.mpr hpath
    unfold ValidatorState.room at hroom
    have hlost := h.lost (by unfold ValidatorState.room; omega) (by simp [hpush])
    omega
  · have hpush : (st.push element).accessPath = st.accessPath := if_neg hlt
    rw [hpush] at hshorter
    refine ⟨by omega, fun _ hpath => ?_⟩
    have hpos := List.length_pos_iff.mpr hpath
    omega

end Descended

/-- A function that finds a value valid, and goes down into all its members. -/
def DescendsAt (validate : Validate) (st : ValidatorState) (value : Value) : Prop :=
  ∃ st', validate st value 0 = .ok (simpleSuccess, st') ∧ Descended value.json.nesting st st'

theorem descended_validateProperties (object : List ℕ) (properties : List (CString × Json))
    (hvalidate : ∀ st place, ∀ property ∈ properties, DescendsAt validate st ⟨place, property.2⟩)
    (n : ℕ) (st : ValidatorState) :
    ∃ st', validateProperties anyMatch validate anything object n properties st = .ok ([], st') ∧
      Descended (Json.nestingProperties properties) st st' := by
  induction properties generalizing n st with
  | nil => exact ⟨st, rfl, .of_eq rfl⟩
  | cons property properties ih =>
    obtain ⟨propertyName, propertyValue⟩ := property
    obtain ⟨st₁, hrun₁, h₁⟩ :=
      hvalidate (st.push (.name propertyName)) (object ++ [n]) _ List.mem_cons_self
    have hnote : Descended propertyValue.nesting (st.push (.name propertyName))
        (st₁.notePropertyEvaluation object propertyName) := ⟨h₁.shorter, h₁.lost⟩
    obtain ⟨st₂, hrun₂, h₂⟩ :=
      ih (fun st place p hp => hvalidate st place p (List.mem_cons_of_mem _ hp)) (n + 1)
        (st₁.notePropertyEvaluation object propertyName).pop
    refine ⟨st₂, ?_, hnote.member.trans h₂⟩
    have hspec : getPropertyValueSpec anyMatch anything propertyName = some 0 := rfl
    rw [validateProperties, hspec]
    dsimp only
    rw [hrun₁, Exec.ok_bind]
    show (do
      let r ← validateProperties anyMatch validate anything object (n + 1) properties
        (st₁.notePropertyEvaluation object propertyName).pop
      return ([] ++ r.1, r.2)) = _
    rw [hrun₂]
    rfl

theorem descended_validateItems (array : List ℕ) (elements : List Json)
    (hvalidate : ∀ st place, ∀ item ∈ elements, DescendsAt validate st ⟨place, item⟩) (i : ℕ)
    (st : ValidatorState) :
    ∃ st', validateItems anyMatch validate anything array i elements [] st = .ok ([], st') ∧
      Descended (Json.nestingElements elements) st st' := by
  induction elements generalizing i st with
  | nil => exact ⟨st, rfl, .of_eq rfl⟩
  | cons item items ih =>
    obtain ⟨st₁, hrun₁, h₁⟩ :=
      hvalidate (st.push (.index i)) (array ++ [i]) _ List.mem_cons_self
    obtain ⟨st₂, hrun₂, h₂⟩ :=
      ih (fun st place v hv => hvalidate st place v (List.mem_cons_of_mem _ hv)) (i + 1) st₁.pop
    refine ⟨st₂, ?_, h₁.member.trans h₂⟩
    have hspec : anything.itemSpec = some 0 := rfl
    rw [validateItems, hspec]
    dsimp only
    rw [hrun₁, Exec.ok_bind]
    show (do
      let r ← validateItems anyMatch validate anything array (i + 1) items [] st₁.pop
      return ([] ++ [] ++ r.1, r.2)) = _
    rw [hrun₂]
    rfl

theorem validateJSONObject_anything {object : List ℕ} {properties : List (CString × Json)}
    {st' : ValidatorState}
    (h : validateProperties anyMatch validate anything object 0 properties st = .ok ([], st')) :
    validateJSONObject anyMatch validate anything st object properties =
      .ok (simpleSuccess, st') := by
  change (validateProperties anyMatch validate anything object 0 properties st >>= _) = _
  rw [h]
  rfl

theorem validateJSONArray_anything {array : List ℕ} {elements : List Json} {st' : ValidatorState}
    (h : validateItems anyMatch validate anything array 0 elements [] st = .ok ([], st')) :
    validateJSONArray anyMatch validate anything st array elements = .ok (simpleSuccess, st') := by
  change (validateItems anyMatch validate anything array 0 elements [] st >>= _) = _
  rw [h]
  rfl

/-- By the kind of the value: nothing but the members is checked. -/
theorem descended_validateJSONSimple (value : Value)
    (hproperties : ∀ properties, value.json = .object properties →
      ∀ st place, ∀ property ∈ properties, DescendsAt validate st ⟨place, property.2⟩)
    (helements : ∀ elements, value.json = .array elements →
      ∀ st place, ∀ item ∈ elements, DescendsAt validate st ⟨place, item⟩) (st : ValidatorState) :
    ∃ st', validateJSONSimple anyMatch anyValidator validate st value anything =
        .ok (simpleSuccess, st') ∧
      Descended value.json.nesting st st' := by
  obtain ⟨place, json⟩ := value
  cases json with
  | object properties =>
    obtain ⟨st', hrun, h⟩ :=
      descended_validateProperties place properties (hproperties properties rfl) 0 st
    exact ⟨st', validateJSONObject_anything hrun, h⟩
  | array elements =>
    obtain ⟨st', hrun, h⟩ :=
      descended_validateItems place elements (helements elements rfl) 0 st
    exact ⟨st', validateJSONArray_anything hrun, h⟩
  | scalar s =>
    cases s with
    | boolean b => exact ⟨st, rfl, .of_eq rfl⟩
    | null => exact ⟨st, rfl, .of_eq rfl⟩
    | string s => exact ⟨st, rfl, .of_eq rfl⟩
    | number n => exact ⟨st, rfl, .of_eq rfl⟩
    | double bits => exact ⟨st, rfl, .of_eq rfl⟩
    | int64 n => exact ⟨st, rfl, .of_eq rfl⟩

theorem validateJSON_anything {fuel : ℕ} {value : Value} {st' : ValidatorState}
    (h : validateJSONSimple anyMatch anyValidator (validateJSON anyMatch anyValidator (fuel + 1))
      st.extendEvalSets value anything = .ok (simpleSuccess, st')) :
    validateJSON anyMatch anyValidator (fuel + 2) st value 0 =
      .ok (simpleSuccess, st'.leaveEvalSet) := by
  rw [validateJSON]
  change (validateJSONSimple anyMatch anyValidator (validateJSON anyMatch anyValidator (fuel + 1))
    st.extendEvalSets value anything >>= _) >>= _ = _
  rw [h]
  rfl

theorem nesting_lt_of_mem_properties {properties : List (CString × Json)}
    {property : CString × Json} (h : property ∈ properties) :
    property.2.nesting < Json.nestingProperties properties := by
  induction h with
  | head => exact lt_of_lt_of_le (Nat.lt_succ_self _) (le_max_left ..)
  | tail _ _ ih => exact ih.trans_le (le_max_right ..)

theorem nesting_lt_of_mem_elements {elements : List Json} {item : Json} (h : item ∈ elements) :
    item.nesting < Json.nestingElements elements := by
  induction h with
  | head => exact lt_of_lt_of_le (Nat.lt_succ_self _) (le_max_left ..)
  | tail _ _ ih => exact ih.trans_le (le_max_right ..)

/-- By induction on the fuel, of which the members need less. -/
theorem descendsAt_validateJSON (fuel : ℕ) (value : Value) (h : value.json.nesting < fuel)
    (st : ValidatorState) : DescendsAt (validateJSON anyMatch anyValidator (fuel + 1)) st value := by
  induction fuel generalizing value st with
  | zero => exact absurd h (Nat.not_lt_zero _)
  | succ fuel ih =>
    have hproperties (properties : List (CString × Json)) (heq : value.json = .object properties)
        (st : ValidatorState) (place : List ℕ) (property : CString × Json)
        (hmem : property ∈ properties) :
        DescendsAt (validateJSON anyMatch anyValidator (fuel + 1)) st ⟨place, property.2⟩ := by
      have hlt := nesting_lt_of_mem_properties hmem
      rw [heq, Json.nesting] at h
      exact ih ⟨place, property.2⟩ (by dsimp only; omega) st
    have helements (elements : List Json) (heq : value.json = .array elements)
        (st : ValidatorState) (place : List ℕ) (item : Json) (hmem : item ∈ elements) :
        DescendsAt (validateJSON anyMatch anyValidator (fuel + 1)) st ⟨place, item⟩ := by
      have hlt := nesting_lt_of_mem_elements hmem
      rw [heq, Json.nesting] at h
      exact ih ⟨place, item⟩ (by dsimp only; omega) st
    obtain ⟨st', hrun, hlost⟩ :=
      descended_validateJSONSimple value hproperties helements st.extendEvalSets
    exact ⟨st'.leaveEvalSet, validateJSON_anything hrun, hlost.shorter, hlost.lost⟩

/-- Every run on a value that starts with a path ends with that path. -/
def RestoresAccessPath (value : Json) (path : AccessPath) : Prop :=
  ∀ platform validator fuel evalSets place spec result st',
    validateJSON platform validator fuel ⟨path, evalSets⟩ ⟨place, value⟩ spec = .ok (result, st') →
      st'.accessPath = path

/-- The schema that goes down into all the members shows what the value can lose. -/
theorem RestoresAccessPath.nesting_le {value : Json} {path : AccessPath}
    (h : RestoresAccessPath value path) :
    path = [] ∨ value.nesting ≤ MAX_SCHEMA_DEPTH - path.length := by
  by_contra hnot
  obtain ⟨hpath, hroom⟩ := not_or.mp hnot
  obtain ⟨st', hrun, hlost⟩ := descendsAt_validateJSON (value.nesting + 1) ⟨[], value⟩
    (Nat.lt_succ_self _) ⟨path, []⟩
  have hshort := hlost.lost (not_le.mp hroom) hpath
  rw [h _ _ _ _ _ _ _ _ hrun] at hshort
  exact hshort.false

/-- At the top there is nothing to lose; further down, the value may not be nested more than there is
room for in the path. -/
theorem restoresAccessPath_iff (value : Json) (path : AccessPath) :
    RestoresAccessPath value path ↔
      path = [] ∨ value.nesting ≤ MAX_SCHEMA_DEPTH - path.length := by
  refine ⟨RestoresAccessPath.nesting_le, fun h => ?_⟩
  intro platform validator fuel evalSets place spec result st' hrun
  have hbalanced := balances_validateJSON platform validator fuel _ _ _ _ hrun
  rcases h with rfl | hroom
  · exact List.eq_nil_of_length_eq_zero (Nat.le_zero.mp hbalanced.shorter)
  · exact hbalanced.same hroom

/-- The hundredth member down, with one member more. -/
theorem not_restoresAccessPath_deep :
    ¬ RestoresAccessPath (.array [.scalar .null]) (List.replicate 100 (.index 0)) :=
  fun h => absurd h.nesting_le (by decide)

end JsonSchema
end ZoweCommon
