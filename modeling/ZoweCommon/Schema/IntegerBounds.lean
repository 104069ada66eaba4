import ZoweCommon.Schema.PropertyCounts

/-! When the bounds of a schema are exact for integers. -/
namespace ZoweCommon
namespace JsonSchema

open CLibrary CString

variable {platform : Platform} {object : JsonObject} {level : JSValueSpec} {st : ValidatorState}

def keywordDouble (object : JsonObject) (propertyName : String) : Option (BitVec 64) :=
  match jsonObjectGetPropertyValue object propertyName with
  | some (.scalar (.number n)) => some (intToDouble n.toInt)
  | some (.scalar (.int64 n)) => some (intToDouble n.toInt)
  | some (.scalar (.double bits)) => some bits
  | _ => none

def keywordBoolean (object : JsonObject) (propertyName : String) : Bool :=
  match jsonObjectGetPropertyValue object propertyName with
  | some (.scalar (.boolean b)) => b
  | _ => false

inductive Side
  | minimum
  | maximum

/-- On which side of a bound the numbers are that it allows. -/
def Side.lt {α : Type} [LT α] : Side → α → α → Prop
  | .minimum, a, b => b < a
  | .maximum, a, b => a < b

structure Bound where
  bits : BitVec 64
  exclusive : Bool

/-- The bound of a schema, if there is one. -/
def bound (object : JsonObject) : Side → Option Bound
  | .minimum =>
    (keywordDouble object "minimum").map fun bits => ⟨bits, keywordBoolean object "exclusiveMinimum"⟩
  | .maximum =>
    (keywordDouble object "maximum").map fun bits => ⟨bits, keywordBoolean object "exclusiveMaximum"⟩

namespace Bound

variable (b : Bound) (side : Side) (i : ℤ)

/-- What the bound says, of exact numbers. -/
def Meets : Prop :=
  if b.exclusive then side.lt (i : ℚ) (Binary64.value b.bits)
  else ¬ side.lt (Binary64.value b.bits) (i : ℚ)

/-- It is the number that stands for none. -/
def isMissing : Bool := Binary64.eq b.bits MISSING_FLOAT_VALIDATOR

/-- Its integer part is an `int64`. -/
def HasInt64 : Prop := ∃ lim, doubleToInt64 b.bits = .ok lim

/-- The integer is taken for one that is on the other side: it is all there is of the bound without
its fraction, or there is no bound to be seen. -/
def Misjudged : Prop :=
  b.isMissing = true ∧ ¬ b.Meets side i ∨
    b.isMissing = false ∧ Binary64.truncate b.bits = some i ∧ (b.exclusive = true ↔ b.Meets side i)

/-- What the code compares to. -/
def Passes : Prop :=
  b.isMissing = true ∨ ∃ lim, doubleToInt64 b.bits = .ok lim ∧
    if b.exclusive then side.lt i lim else ¬ side.lt lim i

end Bound

/-- Without its fraction, a bound is less than one away: only the integer that is left can be
misjudged. -/
theorem Bound.passes_iff {b : Bound} {side : Side} {i : ℤ} (h : b.isMissing = true ∨ b.HasInt64) :
    b.Passes side i ↔ (b.Meets side i ↔ ¬ b.Misjudged side i) := by
  by_cases hmissing : b.isMissing = true
  · have hpasses : b.Passes side i := .inl hmissing
    have hmisjudged : b.Misjudged side i ↔ ¬ b.Meets side i := by
      unfold Misjudged
      simp [hmissing]
    rw [hmisjudged]
    exact iff_of_true hpasses not_not.symm
  · obtain ⟨lim, hlim⟩ := h.resolve_left hmissing
    have htruncate := truncate_of_doubleToInt64 hlim
    obtain ⟨hnear, hnear'⟩ := Binary64.truncate_near htruncate
    have hpasses : b.Passes side i ↔ if b.exclusive then side.lt i lim else ¬ side.lt lim i := by
      unfold Passes
      rw [hlim]
      simp [hmissing]
    have hmisjudged : b.Misjudged side i ↔ lim = i ∧ (b.exclusive = true ↔ b.Meets side i) := by
      unfold Misjudged
      rw [htruncate, Option.some_inj]
      simp [hmissing]
    rw [hpasses, hmisjudged]
    rcases lt_trichotomy i lim with hlt | rfl | hgt
    · have hvalue : (i : ℚ) < Binary64.value b.bits := by
        have hle : (i : ℚ) ≤ lim - 1 := by exact_mod_cast Int.le_sub_one_of_lt hlt
        exact hle.trans_lt hnear
      have hsame : (if b.exclusive then side.lt i lim else ¬ side.lt lim i) ↔ b.Meets side i := by
        unfold Meets
        cases side with
        | minimum => simp [Side.lt, hlt, hlt.not_gt, hvalue, hvalue.not_gt]
        | maximum => simp [Side.lt, hlt, hlt.not_gt, hvalue, hvalue.not_gt]
      rw [hsame]
      simp [hlt.ne']
    · have hstrict : ¬ side.lt i i := by
        cases side with
        | minimum => exact lt_irrefl i
        | maximum => exact lt_irrefl i
      cases b.exclusive with
      | true => simp [hstrict]
      | false => simp [hstrict]
    · have hvalue : Binary64.value b.bits < i := by
        have hle : (lim : ℚ) + 1 ≤ i := by exact_mod_cast Int.add_one_le_of_lt hgt
        exact hnear'.trans_le hle
      have hsame : (if b.exclusive then side.lt i lim else ¬ side.lt lim i) ↔ b.Meets side i := by
        unfold Meets
        cases side with
        | minimum => simp [Side.lt, hgt, hgt.not_gt, hvalue, hvalue.not_gt]
        | maximum => simp [Side.lt, hgt, hgt.not_gt, hvalue, hvalue.not_gt]
      rw [hsame]
      simp [hgt.ne]

/-! The checks of a level -/

section Checks

variable {number : List Byte} {tooLarge tooSmall : Exec Bool} {max min : Exec (List Byte)}

/-- Where the bounds that are looked at have a meaning, nothing is pending unless a check fires. -/
theorem checkBounds_eq_ok {path : List Byte} (hpath : validatorAccessPath st.accessPath = .ok path)
    (hmax : level.hasFlag JS_VALIDATOR_MAX = true →
      (∃ large, tooLarge = .ok large) ∧ ∃ text, max = .ok text)
    (hmin : level.hasFlag JS_VALIDATOR_MIN = true →
      (∃ small, tooSmall = .ok small) ∧ ∃ text, min = .ok text) :
    ∃ pending, checkBounds level st number tooLarge tooSmall max min = .ok pending ∧
      (pending = [] ↔ (level.hasFlag JS_VALIDATOR_MAX = true → tooLarge = .ok false) ∧
        (level.hasFlag JS_VALIDATOR_MIN = true → tooSmall = .ok false)) := by
  unfold checkBounds
  rw [hpath]
  cases hasMax : level.hasFlag JS_VALIDATOR_MAX with
  | false =>
    cases hasMin : level.hasFlag JS_VALIDATOR_MIN with
    | false => simp
    | true =>
      obtain ⟨⟨small, hsmall⟩, text, htext⟩ := hmin hasMin
      cases small with
      | false => simp [hsmall]
      | true => simp [hsmall, htext]
  | true =>
    obtain ⟨⟨large, hlarge⟩, text, htext⟩ := hmax hasMax
    cases hasMin : level.hasFlag JS_VALIDATOR_MIN with
    | false =>
      cases large with
      | false => simp [hlarge]
      | true => simp [hlarge, htext]
    | true =>
      obtain ⟨⟨small, hsmall⟩, text', htext'⟩ := hmin hasMin
      cases large with
      | false =>
        cases small with
        | false => simp [hlarge, hsmall]
        | true => simp [hlarge, hsmall, htext']
      | true =>
        cases small with
        | false => simp [hlarge, htext, hsmall]
        | true => simp [hlarge, htext, hsmall, htext']

theorem checkBounds_meaning {pending : List ValidityException}
    (h : checkBounds level st number tooLarge tooSmall max min = .ok pending) :
    (level.hasFlag JS_VALIDATOR_MAX = true → ∃ large, tooLarge = .ok large) ∧
      (level.hasFlag JS_VALIDATOR_MIN = true → ∃ small, tooSmall = .ok small) := by
  unfold checkBounds at h
  constructor
  · intro hasMax
    cases hlarge : tooLarge with
    | ok large => exact ⟨large, rfl⟩
    | error fault => simp [hasMax, hlarge] at h
  · intro hasMin
    cases hsmall : tooSmall with
    | ok small => exact ⟨small, rfl⟩
    | error fault =>
      cases hasMax : level.hasFlag JS_VALIDATOR_MAX with
      | false => simp [hasMax, hasMin, hsmall] at h
      | true =>
        cases hlarge : tooLarge with
        | error fault => simp [hasMax, hlarge] at h
        | ok large =>
          cases large with
          | false => simp [hasMax, hasMin, hlarge, hsmall] at h
          | true =>
            cases hmax : max with
            | error fault => simp [hasMax, hlarge, hmax] at h
            | ok text =>
              cases hpath : validatorAccessPath st.accessPath with
              | error fault => simp [hasMax, hlarge, hmax, hpath] at h
              | ok path => simp [hasMax, hasMin, hlarge, hmax, hpath, hsmall] at h

end Checks

structure NumericLevel (object : JsonObject) (level : JSValueSpec) : Prop where
  maximum : level.maximum = (keywordDouble object "maximum").getD MISSING_FLOAT_VALIDATOR
  exclusiveMaximum : level.exclusiveMaximum = keywordBoolean object "exclusiveMaximum"
  minimum : level.minimum = (keywordDouble object "minimum").getD MISSING_FLOAT_VALIDATOR
  exclusiveMinimum : level.exclusiveMinimum = keywordBoolean object "exclusiveMinimum"
  hasMax : level.hasFlag JS_VALIDATOR_MAX = !Binary64.eq level.maximum MISSING_FLOAT_VALIDATOR
  hasMin : level.hasFlag JS_VALIDATOR_MIN = !Binary64.eq level.minimum MISSING_FLOAT_VALIDATOR

theorem missing_eq_missing :
    Binary64.eq MISSING_FLOAT_VALIDATOR MISSING_FLOAT_VALIDATOR = true := by
  decide +kernel

/-- A level looks at its bound if there is one that is not the one that stands for none. -/
structure LooksAt (object : JsonObject) (side : Side) (b : Bound) (flag : Bool) : Prop where
  eq : ∀ b' ∈ bound object side, b' = b
  flag_iff : flag = true ↔ b ∈ bound object side ∧ b.isMissing = false

theorem NumericLevel.maximum_looksAt (h : NumericLevel object level) :
    LooksAt object .maximum ⟨level.maximum, level.exclusiveMaximum⟩
      (level.hasFlag JS_VALIDATOR_MAX) := by
  rw [h.hasMax, h.maximum, h.exclusiveMaximum]
  cases hdouble : keywordDouble object "maximum" with
  | none =>
    constructor
    · simp [bound, hdouble]
    · simp [bound, hdouble, missing_eq_missing]
  | some bits =>
    constructor
    · simp [bound, hdouble]
    · simp [bound, hdouble, Bound.isMissing]

theorem NumericLevel.minimum_looksAt (h : NumericLevel object level) :
    LooksAt object .minimum ⟨level.minimum, level.exclusiveMinimum⟩
      (level.hasFlag JS_VALIDATOR_MIN) := by
  rw [h.hasMin, h.minimum, h.exclusiveMinimum]
  cases hdouble : keywordDouble object "minimum" with
  | none =>
    constructor
    · simp [bound, hdouble]
    · simp [bound, hdouble, missing_eq_missing]
  | some bits =>
    constructor
    · simp [bound, hdouble]
    · simp [bound, hdouble, Bound.isMissing]

theorem passes_maximum {b : Bound} {i : ℤ} (h : b.isMissing = false) :
    b.Passes .maximum i ↔ (do
      let lim ← doubleToInt64 b.bits
      return if b.exclusive then lim ≤ i else lim < i : Exec Bool) = .ok false := by
  unfold Bound.Passes
  rw [h]
  cases doubleToInt64 b.bits with
  | error fault => simp
  | ok lim =>
    cases b.exclusive with
    | true => simp [Side.lt]
    | false => simp [Side.lt]

theorem passes_minimum {b : Bound} {i : ℤ} (h : b.isMissing = false) :
    b.Passes .minimum i ↔ (do
      let lim ← doubleToInt64 b.bits
      return if b.exclusive then i ≤ lim else i < lim : Exec Bool) = .ok false := by
  unfold Bound.Passes
  rw [h]
  cases doubleToInt64 b.bits with
  | error fault => simp
  | ok lim =>
    cases b.exclusive with
    | true => simp [Side.lt]
    | false => simp [Side.lt]

theorem LooksAt.passes_iff {side : Side} {i : ℤ} {flag : Bool} {b : Bound} {x : Exec Bool}
    (h : LooksAt object side b flag)
    (hx : b.isMissing = false → (b.Passes side i ↔ x = .ok false)) :
    (flag = true → x = .ok false) ↔ ∀ b ∈ bound object side, b.Passes side i := by
  rw [h.flag_iff]
  constructor
  · intro hcheck b' hb
    obtain rfl := h.eq b' hb
    cases hmissing : b'.isMissing with
    | true => exact .inl hmissing
    | false => exact (hx hmissing).mpr (hcheck ⟨hb, hmissing⟩)
  · rintro hpasses ⟨hb, hmissing⟩
    exact (hx hmissing).mp (hpasses b hb)

theorem pendingResult_eq_ok {path : List Byte} (hpath : validatorAccessPath st.accessPath = .ok path)
    (kind : String) (pending : List ValidityException) :
    ∃ result, pendingResult st kind pending = .ok result ∧
      (vStatusValid result.status = true ↔ pending = []) := by
  unfold pendingResult
  rw [hpath]
  cases pending with
  | nil => exact ⟨simpleSuccess, rfl, by simp [simpleSuccess, vStatusValid]⟩
  | cons exception pending =>
    exact ⟨failureWithException _ _, rfl, by simp [failureWithException, vStatusValid]⟩

/-- An integer passes if it passes both bounds, and otherwise it is found invalid. -/
theorem NumericLevel.validateJSONInteger_eq_ok (h : NumericLevel object level) (i : ℤ)
    (hint64 : ∀ side, ∀ b ∈ bound object side, b.isMissing = true ∨ b.HasInt64)
    (hpath : ∃ path, validatorAccessPath st.accessPath = .ok path) :
    ∃ result, validateJSONInteger level st i = .ok result ∧
      (vStatusValid result.status = true ↔ ∀ side, ∀ b ∈ bound object side, b.Passes side i) := by
  obtain ⟨path, hpath⟩ := hpath
  have hlim {side : Side} {b : Bound} {flag : Bool} (hlooks : LooksAt object side b flag)
      (hflag : flag = true) : ∃ lim, doubleToInt64 b.bits = .ok lim := by
    obtain ⟨hb, hmissing⟩ := hlooks.flag_iff.mp hflag
    refine (hint64 side b hb).resolve_left ?_
    rw [hmissing]
    exact Bool.false_ne_true
  have hmaximum (hflag : level.hasFlag JS_VALIDATOR_MAX = true) :
      (∃ large, (do
        let lim ← doubleToInt64 level.maximum
        return if level.exclusiveMaximum then lim ≤ i else lim < i : Exec Bool) = .ok large) ∧
      ∃ text, (do return formatD (← doubleToInt64 level.maximum)) = Except.ok text := by
    obtain ⟨lim, hlim⟩ := hlim h.maximum_looksAt hflag
    dsimp only at hlim
    rw [hlim]
    exact ⟨⟨_, rfl⟩, _, rfl⟩
  have hminimum (hflag : level.hasFlag JS_VALIDATOR_MIN = true) :
      (∃ small, (do
        let lim ← doubleToInt64 level.minimum
        return if level.exclusiveMinimum then i ≤ lim else i < lim : Exec Bool) = .ok small) ∧
      ∃ text, (do return formatD (← doubleToInt64 level.minimum)) = Except.ok text := by
    obtain ⟨lim, hlim⟩ := hlim h.minimum_looksAt hflag
    dsimp only at hlim
    rw [hlim]
    exact ⟨⟨_, rfl⟩, _, rfl⟩
  obtain ⟨pending, hrun, hnil⟩ := checkBounds_eq_ok hpath hmaximum hminimum
  have hpasses : pending = [] ↔ ∀ side, ∀ b ∈ bound object side, b.Passes side i := by
    rw [hnil, h.maximum_looksAt.passes_iff passes_maximum,
      h.minimum_looksAt.passes_iff passes_minimum]
    constructor
    · rintro ⟨hmax, hmin⟩ side
      cases side with
      | minimum => exact hmin
      | maximum => exact hmax
    · exact fun hpasses => ⟨hpasses .maximum, hpasses .minimum⟩
  obtain ⟨result, hresult, hvalid⟩ := pendingResult_eq_ok hpath "integer" pending
  refine ⟨result, ?_, hvalid.trans hpasses⟩
  unfold validateJSONInteger
  dsimp only
  rw [hrun]
  exact hresult

/-- A bound that is looked at has to have a meaning. -/
theorem NumericLevel.hasInt64 (h : NumericLevel object level) {i : ℤ} {result : VResult}
    (hrun : validateJSONInteger level st i = .ok result) (side : Side) {b : Bound}
    (hb : b ∈ bound object side) : b.isMissing = true ∨ b.HasInt64 := by
  obtain ⟨pending, hpending, -⟩ := Exec.bind_eq_ok.mp hrun
  obtain ⟨hmax, hmin⟩ := checkBounds_meaning hpending
  cases hmissing : b.isMissing with
  | true => exact .inl rfl
  | false =>
    right
    cases side with
    | maximum =>
      obtain rfl := h.maximum_looksAt.eq b hb
      obtain ⟨large, hlarge⟩ := hmax (h.maximum_looksAt.flag_iff.mpr ⟨hb, hmissing⟩)
      obtain ⟨lim, hlim, -⟩ := Exec.bind_eq_ok.mp hlarge
      exact ⟨lim, hlim⟩
    | minimum =>
      obtain rfl := h.minimum_looksAt.eq b hb
      obtain ⟨small, hsmall⟩ := hmin (h.minimum_looksAt.flag_iff.mpr ⟨hb, hmissing⟩)
      obtain ⟨lim, hlim, -⟩ := Exec.bind_eq_ok.mp hsmall
      exact ⟨lim, hlim⟩

/-! The level that is built -/

section Build

variable {specs specs' : List JSValueSpec} {valueSpec : ℕ}

theorem run_getNumber {propertyName : String} {defaultValue bits : BitVec 64}
    (h : (getNumber platform object propertyName defaultValue).run specs = .ok (bits, specs')) :
    bits = (keywordDouble object propertyName).getD defaultValue ∧ specs' = specs := by
  revert h
  unfold getNumber keywordDouble
  cases jsonObjectGetPropertyValue object propertyName with
  | none =>
    rintro ⟨⟩
    exact ⟨rfl, rfl⟩
  | some value =>
    cases value with
    | object properties => nofun
    | array elements => nofun
    | scalar s =>
      cases s with
      | null | boolean b | string s => nofun
      | number n | double bits | int64 n =>
        rintro ⟨⟩
        exact ⟨rfl, rfl⟩

theorem run_getBooleanValue {propertyName : String} {b : Bool}
    (h : (getBooleanValue platform object propertyName false).run specs = .ok (b, specs')) :
    b = keywordBoolean object propertyName ∧ specs' = specs := by
  revert h
  unfold getBooleanValue keywordBoolean
  cases jsonObjectGetPropertyValue object propertyName with
  | none =>
    rintro ⟨⟩
    exact ⟨rfl, rfl⟩
  | some value =>
    cases value with
    | object properties => nofun
    | array elements => nofun
    | scalar s =>
      cases s with
      | null | string s | number n | double bits | int64 n => nofun
      | boolean b =>
        rintro ⟨⟩
        exact ⟨rfl, rfl⟩

theorem or_flag (x y flag : BitVec 64) :
    decide ((x ||| y) &&& flag ≠ 0) = (decide (x &&& flag ≠ 0) || decide (y &&& flag ≠ 0)) := by
  rw [BitVec.and_or_distrib_right]
  simp [BitVec.or_eq_zero_iff]

theorem ite_flag (c : Bool) (flag flag' : BitVec 64) :
    decide ((if c = true then flag else 0) &&& flag' ≠ 0) = (c && decide (flag &&& flag' ≠ 0)) := by
  cases c with
  | true => simp
  | false => simp

/-- What each of the bounds sets is not touched by the rest. -/
theorem flags_built {x y : BitVec 64} {c d : Bool} (flags : BitVec 64)
    (hflags : flags = ((x ||| if c = true then JS_VALIDATOR_MAX else 0) |||
      if d = true then JS_VALIDATOR_MIN else 0) ||| y)
    (hxMax : decide (x &&& JS_VALIDATOR_MAX ≠ 0) = false)
    (hxMin : decide (x &&& JS_VALIDATOR_MIN ≠ 0) = false) (hyMax : y &&& JS_VALIDATOR_MAX = 0)
    (hyMin : y &&& JS_VALIDATOR_MIN = 0) :
    decide (flags &&& JS_VALIDATOR_MAX ≠ 0) = c ∧ decide (flags &&& JS_VALIDATOR_MIN ≠ 0) = d := by
  subst hflags
  simp only [or_flag, ite_flag, hxMax, hxMin, hyMax, hyMin]
  simp [JS_VALIDATOR_MAX, JS_VALIDATOR_MIN]

theorem run_setFlag {c : Bool} {flag : BitVec 64} {rest : Unit → Build Unit}
    (h : (if c = true then do
        let u ← setSpec valueSpec fun spec =>
          { spec with validatorFlags := spec.validatorFlags ||| flag }
        rest u
      else rest ()).run specs = .ok ((), specs')) {spec : JSValueSpec}
    (hspec : specs[valueSpec]? = some spec) :
    ∃ specs₁, (rest ()).run specs₁ = .ok ((), specs') ∧
      specs₁[valueSpec]? = some
        { spec with validatorFlags := spec.validatorFlags ||| if c then flag else 0 } := by
  cases c with
  | true =>
    obtain ⟨u, specs₁, hset, hrest⟩ := run_bind_eq_ok.mp h
    cases hset
    refine ⟨_, hrest, ?_⟩
    rw [List.getElem?_modify_eq, hspec]
    rfl
  | false =>
    refine ⟨specs, h, ?_⟩
    rw [hspec]
    simp

theorem run_multipleOf {multipleOf : BitVec 64}
    (h : (if (!Binary64.eq multipleOf MISSING_FLOAT_VALIDATOR) = true then do
        checkPositiveDouble multipleOf "multipleOf"
        setSpec valueSpec fun spec =>
          { spec with validatorFlags := spec.validatorFlags ||| JS_VALIDATOR_MULTOF }
      else pure () : Build Unit).run specs = .ok ((), specs')) {spec : JSValueSpec}
    (hspec : specs[valueSpec]? = some spec) :
    ∃ flags, flags &&& JS_VALIDATOR_MAX = 0 ∧ flags &&& JS_VALIDATOR_MIN = 0 ∧
      specs'[valueSpec]? = some { spec with validatorFlags := spec.validatorFlags ||| flags } := by
  split at h
  · obtain ⟨u, specs₁, hcheck, hset⟩ := run_bind_eq_ok.mp h
    unfold checkPositiveDouble at hcheck
    split at hcheck
    · cases hcheck
    · cases hcheck
      cases hset
      refine ⟨JS_VALIDATOR_MULTOF, by decide, by decide, ?_⟩
      rw [List.getElem?_modify_eq, hspec]
      rfl
  · cases h
    refine ⟨0, by decide, by decide, ?_⟩
    rw [hspec]
    simp

/-- The keywords make the bounds, if the level had none before. -/
theorem numericLevel_of_build {spec : JSValueSpec}
    (h : (buildNumericSpec platform object valueSpec).run specs = .ok ((), specs'))
    (hspec : specs[valueSpec]? = some spec) (hmax : spec.hasFlag JS_VALIDATOR_MAX = false)
    (hmin : spec.hasFlag JS_VALIDATOR_MIN = false) (hlevel : specs'[valueSpec]? = some level) :
    NumericLevel object level := by
  unfold buildNumericSpec at h
  obtain ⟨multipleOf, specs₁, hread₁, h₁⟩ := run_bind_eq_ok.mp h
  obtain ⟨-, rfl⟩ := run_getNumber hread₁
  obtain ⟨maximum, specs₂, hread₂, h₂⟩ := run_bind_eq_ok.mp h₁
  obtain ⟨hmaximum, rfl⟩ := run_getNumber hread₂
  obtain ⟨exclusiveMaximum, specs₃, hread₃, h₃⟩ := run_bind_eq_ok.mp h₂
  obtain ⟨hexclusiveMaximum, rfl⟩ := run_getBooleanValue hread₃
  obtain ⟨minimum, specs₄, hread₄, h₄⟩ := run_bind_eq_ok.mp h₃
  obtain ⟨hminimum, rfl⟩ := run_getNumber hread₄
  obtain ⟨exclusiveMinimum, specs₅, hread₅, h₅⟩ := run_bind_eq_ok.mp h₄
  obtain ⟨hexclusiveMinimum, rfl⟩ := run_getBooleanValue hread₅
  obtain ⟨u, specs₆, hset, h₆⟩ := run_bind_eq_ok.mp h₅
  have hspec₆ : specs₆[valueSpec]? = some
      { spec with
        multipleOf := multipleOf
        maximum := maximum
        exclusiveMaximum := exclusiveMaximum
        minimum := minimum
        exclusiveMinimum := exclusiveMinimum } := by
    cases hset
    rw [List.getElem?_modify_eq, hspec]
    rfl
  obtain ⟨specs₇, h₇, hspec₇⟩ := run_setFlag h₆ hspec₆
  obtain ⟨specs₈, h₈, hspec₈⟩ := run_setFlag h₇ hspec₇
  obtain ⟨flags, hflagMax, hflagMin, hspec'⟩ := run_multipleOf h₈ hspec₈
  cases hspec'.symm.trans hlevel
  obtain ⟨hasMax, hasMin⟩ := flags_built _ rfl hmax hmin hflagMax hflagMin
  exact ⟨hmaximum, hexclusiveMaximum, hminimum, hexclusiveMinimum, hasMax, hasMin⟩

end Build

/-- A level that the builder made of numeric keywords. -/
def NumericSchema (platform : Platform) (object : JsonObject) (level : JSValueSpec) : Prop :=
  ∃ specs specs' valueSpec spec,
    (buildNumericSpec platform object valueSpec).run specs = .ok ((), specs') ∧
      specs[valueSpec]? = some spec ∧ spec.hasFlag JS_VALIDATOR_MAX = false ∧
      spec.hasFlag JS_VALIDATOR_MIN = false ∧ specs'[valueSpec]? = some level

/-- An integer passes if it meets the bounds, and is found invalid if it does not. -/
def IntegerExact (object : JsonObject) (level : JSValueSpec) (i : ℤ) : Prop :=
  ∀ st : ValidatorState, (∃ path, validatorAccessPath st.accessPath = .ok path) →
    ∃ result, validateJSONInteger level st i = .ok result ∧
      (vStatusValid result.status = true ↔ ∀ side, ∀ b ∈ bound object side, b.Meets side i)

/-- All the bounds that are seen are seen as integers of 64 bits; none is misjudged if the integer
meets them all, and otherwise there is one that it breaks and that is not misjudged, or one that it
meets and that is. -/
structure BoundsHold (object : JsonObject) (i : ℤ) : Prop where
  hasInt64 : ∀ side, ∀ b ∈ bound object side, b.isMissing = true ∨ b.HasInt64
  met : (∀ side, ∀ b ∈ bound object side, b.Meets side i) →
    ∀ side, ∀ b ∈ bound object side, ¬ b.Misjudged side i
  broken : (∃ side, ∃ b ∈ bound object side, ¬ b.Meets side i) →
    ∃ side, ∃ b ∈ bound object side, (b.Misjudged side i ↔ b.Meets side i)

theorem NumericLevel.boundsHold (h : NumericLevel object level) {i : ℤ}
    (hexact : IntegerExact object level i) : BoundsHold object i := by
  have hpath : ∃ path, validatorAccessPath (⟨[], []⟩ : ValidatorState).accessPath = .ok path :=
    ⟨[], rfl⟩
  obtain ⟨result, hrun, hmeets⟩ := hexact ⟨[], []⟩ hpath
  have hint64 (side : Side) (b : Bound) (hb : b ∈ bound object side) :
      b.isMissing = true ∨ b.HasInt64 := h.hasInt64 hrun side hb
  obtain ⟨result', hrun', hpasses⟩ := h.validateJSONInteger_eq_ok i hint64 hpath
  cases hrun.symm.trans hrun'
  have hall := hpasses.symm.trans hmeets
  refine ⟨hint64, fun hmet side b hb => ?_, ?_⟩
  · exact ((Bound.passes_iff (hint64 side b hb)).mp (hall.mpr hmet side b hb)).mp (hmet side b hb)
  · rintro ⟨side, b, hb, hbroken⟩
    by_contra hnone
    refine hbroken (hall.mp (fun side b hb => ?_) side b hb)
    rw [Bound.passes_iff (hint64 side b hb)]
    by_contra hnot
    exact hnone ⟨side, b, hb, (not_iff_not.mp (not_iff.mp hnot)).symm⟩

/-- Bounds are exact for an integer unless they are beyond the integers of 64 bits, or the one that
matters is misjudged. -/
theorem integerExact_iff {platform : Platform} {object : JsonObject} {level : JSValueSpec}
    (h : NumericSchema platform object level) (n : BitVec 64) :
    IntegerExact object level n.toInt ↔ BoundsHold object n.toInt := by
  obtain ⟨specs, specs', valueSpec, spec, hbuild, hspec, hmax, hmin, hlevel⟩ := h
  have hnumeric := numericLevel_of_build hbuild hspec hmax hmin hlevel
  refine ⟨hnumeric.boundsHold, fun hhold st hpath => ?_⟩
  obtain ⟨result, hrun, hpasses⟩ := hnumeric.validateJSONInteger_eq_ok n.toInt hhold.hasInt64 hpath
  refine ⟨result, hrun, hpasses.trans ⟨fun hall => ?_, fun hmet side b hb => ?_⟩⟩
  · by_contra hbroken
    push Not at hbroken
    obtain ⟨side, b, hb, hsame⟩ := hhold.broken hbroken
    have hjudged := (Bound.passes_iff (hhold.hasInt64 side b hb)).mp (hall side b hb)
    exact iff_not_self (hsame.trans hjudged)
  · rw [Bound.passes_iff (hhold.hasInt64 side b hb)]
    exact iff_of_true (hmet side b hb) (hhold.met hmet side b hb)

/-- The number -0.5. -/
def minusHalf : BitVec 64 := 0xBFE0000000000000

def belowZero : JsonObject := [keyword "maximum" (.double minusHalf)]

def belowZeroLevel : JSValueSpec :=
  { multipleOf := MISSING_FLOAT_VALIDATOR, maximum := minusHalf,
    minimum := MISSING_FLOAT_VALIDATOR, validatorFlags := JS_VALIDATOR_MAX }

theorem numericSchema_belowZero : NumericSchema noPatterns belowZero belowZeroLevel := by
  have hmaximum : Binary64.eq minusHalf MISSING_FLOAT_VALIDATOR = false := by
    decide +kernel
  have hnumber (propertyName : String) (specs : List JSValueSpec)
      (hname : jsonObjectGetPropertyValue belowZero propertyName = none) :
      (getNumber noPatterns belowZero propertyName MISSING_FLOAT_VALIDATOR).run specs =
        .ok (MISSING_FLOAT_VALIDATOR, specs) := by
    rw [getNumber, hname]
    rfl
  have hboolean (propertyName : String) (specs : List JSValueSpec)
      (hname : jsonObjectGetPropertyValue belowZero propertyName = none) :
      (getBooleanValue noPatterns belowZero propertyName false).run specs = .ok (false, specs) := by
    rw [getBooleanValue, hname]
    rfl
  have hbound (specs : List JSValueSpec) :
      (getNumber noPatterns belowZero "maximum" MISSING_FLOAT_VALIDATOR).run specs =
        .ok (minusHalf, specs) := rfl
  refine ⟨[{}], [belowZeroLevel], 0, {}, ?_, rfl, rfl, rfl, rfl⟩
  unfold buildNumericSpec
  rw [run_bind_of_ok (hnumber "multipleOf" _ rfl), run_bind_of_ok (hbound _),
    run_bind_of_ok (hboolean "exclusiveMaximum" _ rfl), run_bind_of_ok (hnumber "minimum" _ rfl),
    run_bind_of_ok (hboolean "exclusiveMinimum" _ rfl), hmaximum, missing_eq_missing]
  rfl

theorem integerExact_iff_belowZero :
    IntegerExact belowZero belowZeroLevel (1 : BitVec 64).toInt ↔
      BoundsHold belowZero (1 : BitVec 64).toInt :=
  integerExact_iff numericSchema_belowZero 1

theorem not_meets_minusHalf : ¬ (⟨minusHalf, false⟩ : Bound).Meets .maximum 0 := by
  have hvalue : Binary64.value minusHalf < ((0 : ℤ) : ℚ) := by
    decide +kernel
  exact fun hmeets => hmeets hvalue

theorem misjudged_minusHalf : (⟨minusHalf, false⟩ : Bound).Misjudged .maximum 0 := by
  have htruncate : Binary64.truncate minusHalf = some 0 := by
    decide +kernel
  have hseen : (⟨minusHalf, false⟩ : Bound).isMissing = false := by
    decide +kernel
  exact .inr ⟨hseen, htruncate, nofun, fun hmeets => absurd hmeets not_meets_minusHalf⟩

/-- Zero passes where at most -0.5 is allowed. -/
theorem not_integerExact_belowZero :
    NumericSchema noPatterns belowZero belowZeroLevel ∧ ¬ IntegerExact belowZero belowZeroLevel 0 := by
  refine ⟨numericSchema_belowZero, fun hexact => ?_⟩
  obtain ⟨specs, specs', valueSpec, spec, hbuild, hspec, hmax, hmin, hlevel⟩ :=
    numericSchema_belowZero
  have hhold := (numericLevel_of_build hbuild hspec hmax hmin hlevel).boundsHold hexact
  have hmem : (⟨minusHalf, false⟩ : Bound) ∈ bound belowZero .maximum := rfl
  obtain ⟨side, b, hb, hsame⟩ := hhold.broken ⟨.maximum, _, hmem, not_meets_minusHalf⟩
  cases side with
  | minimum => cases hb
  | maximum =>
    cases Option.mem_unique hb hmem
    exact not_meets_minusHalf (hsame.mp misjudged_minusHalf)

end JsonSchema
end ZoweCommon
