import ZoweCommon.Http.QueryParam

/-! The parameters that a service specifies. -/
namespace ZoweCommon
namespace Http
namespace ServiceParams

open Ebcdic (literal toASCIIUTF8 toIbm1047 atoi strtoull10)
open CLibrary (digitChar formatD isdigit isspace snprintf splitSign)
open QueryParam (getQueryParam)

def SERVICE_ARG_REQUIRED : BitVec 32 := 1
def SERVICE_ARG_HAS_LOW_BOUND : BitVec 32 := 2
def SERVICE_ARG_HAS_HIGH_BOUND : BitVec 32 := 4

def MAX_COMPLAINT : ℕ := 512

inductive ServiceArgType
  | int (lowBound highBound : BitVec 32)
  | string
  | date
  | hex
  | int64 (lowBound64 highBound64 : BitVec 64)

structure HttpRequestParamSpec where
  name : CString
  flags : BitVec 32
  type : ServiceArgType

def makeIntParamSpec (name : CString) (flags lowBound highBound : BitVec 32)
    (next : List HttpRequestParamSpec) : List HttpRequestParamSpec :=
  ⟨name, flags, .int lowBound highBound⟩ :: next

def makeInt64ParamSpec (name : CString) (flags : BitVec 32) (lowBound highBound : BitVec 64)
    (next : List HttpRequestParamSpec) : List HttpRequestParamSpec :=
  ⟨name, flags, .int64 lowBound highBound⟩ :: next

inductive ParamValue
  | intValue (value : BitVec 32)
  | int64Value (value : BitVec 64)
  | stringValue (value : CString)

structure HttpRequestParam where
  specification : HttpRequestParamSpec
  value : ParamValue

def makeIntParam (spec : HttpRequestParamSpec) (value : BitVec 32) : HttpRequestParam :=
  ⟨spec, .intValue value⟩

def makeInt64Param (spec : HttpRequestParamSpec) (value : BitVec 64) : HttpRequestParam :=
  ⟨spec, .int64Value value⟩

def makeStringParam (spec : HttpRequestParamSpec) (value : CString) : HttpRequestParam :=
  ⟨spec, .stringValue value⟩

def complain (text : List Byte) : CString := .ofBytes (snprintf MAX_COMPLAINT text)

def notSupplied (spec : HttpRequestParamSpec) : CString :=
  complain (literal "Required Parameter '" ++ spec.name.bytes ++ literal "' Not Supplied")

def outOfBounds (value : ℤ) (side : String) (bound : ℤ) (spec : HttpRequestParamSpec) : CString :=
  complain (literal "value " ++ (formatD value).map toIbm1047 ++ literal side ++
    (formatD bound).map toIbm1047 ++ literal " for " ++ spec.name.bytes)

def checkBounds (spec : HttpRequestParamSpec) (value lowBound highBound : ℤ)
    (complaint : Option CString) : Option CString :=
  let complaint :=
    if spec.flags &&& SERVICE_ARG_HAS_LOW_BOUND ≠ 0 ∧ value < lowBound then
      some (outOfBounds value " below acceptable value " lowBound spec)
    else complaint
  if spec.flags &&& SERVICE_ARG_HAS_HIGH_BOUND ≠ 0 ∧ highBound < value then
    some (outOfBounds value " above acceptable value " highBound spec)
  else complaint

/-- The specifications from some place on. -/
def processSpecs (request : QueryParam.HttpRequest) : List HttpRequestParamSpec → List HttpRequestParam →
    Option CString → Exec (List HttpRequestParam × Option CString)
  | [], processedParamList, complaint => return (processedParamList, complaint)
  | spec :: specs, processedParamList, complaint => do
    match ← getQueryParam request spec.name with
    | none =>
      if spec.flags &&& SERVICE_ARG_REQUIRED ≠ 0 then
        return (processedParamList, some (notSupplied spec))
      else processSpecs request specs processedParamList complaint
    | some paramString =>
      match spec.type with
      | .int lowBound highBound =>
        let intValue ← atoi paramString
        processSpecs request specs (processedParamList ++ [makeIntParam spec intValue])
          (checkBounds spec intValue.toInt lowBound.toInt highBound.toInt complaint)
      | .int64 lowBound64 highBound64 =>
        let int64Value := strtoull10 paramString
        processSpecs request specs (processedParamList ++ [makeInt64Param spec int64Value])
          (checkBounds spec int64Value.toInt lowBound64.toInt highBound64.toInt complaint)
      | .string =>
        processSpecs request specs (processedParamList ++ [makeStringParam spec paramString])
          complaint
      | _ => processSpecs request specs processedParamList complaint

/-- The parameters that are kept with the request, and the complaint if there is one. -/
def processServiceRequestParams (paramSpecList : List HttpRequestParamSpec)
    (request : QueryParam.HttpRequest) : Exec (List HttpRequestParam × Option CString) :=
  processSpecs request paramSpecList [] none

def getCheckedParam (processedParamList : List HttpRequestParam) (paramName : CString) :
    Option HttpRequestParam :=
  processedParamList.find? fun param => param.specification.name = paramName

def ServiceArgType.IsNumeric : ServiceArgType → Prop
  | .int _ _ => True
  | .int64 _ _ => True
  | _ => False

/-- A list of specifications of numbers. -/
structure NumericSpecs where
  paramSpecList : List HttpRequestParamSpec
  isNumeric : ∀ spec ∈ paramSpecList, spec.type.IsNumeric

def NumericSpecs.empty : NumericSpecs := ⟨[], List.forall_mem_nil _⟩

def NumericSpecs.addInt (specs : NumericSpecs) (name : CString)
    (flags lowBound highBound : BitVec 32) : NumericSpecs :=
  ⟨makeIntParamSpec name flags lowBound highBound specs.paramSpecList,
    List.forall_mem_cons.mpr ⟨trivial, specs.isNumeric⟩⟩

def NumericSpecs.addInt64 (specs : NumericSpecs) (name : CString) (flags : BitVec 32)
    (lowBound highBound : BitVec 64) : NumericSpecs :=
  ⟨makeInt64ParamSpec name flags lowBound highBound specs.paramSpecList,
    List.forall_mem_cons.mpr ⟨trivial, specs.isNumeric⟩⟩

/-! What is to be enforced -/

def Supplied (request : QueryParam.HttpRequest) (spec : HttpRequestParamSpec) (text : CString) : Prop :=
  getQueryParam request spec.name = .ok (some text)

def IsDecimal (text : CString) (z : ℤ) : Prop :=
  ∃ sign ds, text.bytes = (sign ++ List.map digitChar ds).map toIbm1047 ∧ ds ≠ [] ∧
    (∀ d ∈ ds, d < 10) ∧
    ((sign = [] ∨ sign = [0x2B]) ∧ z = Decimal.value ds ∨ sign = [0x2D] ∧ z = -Decimal.value ds)

def ServiceArgType.InRange (low high : Bool) (z : ℤ) : ServiceArgType → Prop
  | .int lowBound highBound => (low → lowBound.toInt ≤ z) ∧ (high → z ≤ highBound.toInt)
  | .int64 lowBound64 highBound64 => (low → lowBound64.toInt ≤ z) ∧ (high → z ≤ highBound64.toInt)
  | _ => True

/-- The bounds that are flagged. -/
def InBounds (spec : HttpRequestParamSpec) (z : ℤ) : Prop :=
  spec.type.InRange (spec.flags &&& SERVICE_ARG_HAS_LOW_BOUND ≠ 0)
    (spec.flags &&& SERVICE_ARG_HAS_HIGH_BOUND ≠ 0) z

def IsRequired (spec : HttpRequestParamSpec) : Prop := spec.flags &&& SERVICE_ARG_REQUIRED ≠ 0

structure Satisfied (request : QueryParam.HttpRequest) (spec : HttpRequestParamSpec) : Prop where
  required : IsRequired spec → ∃ text, Supplied request spec text
  number : ∀ text, Supplied request spec text → ∃ z, IsDecimal text z ∧ InBounds spec z

def ParamValue.number : ParamValue → Option ℤ
  | .intValue value => some value.toInt
  | .int64Value value => some value.toInt
  | .stringValue _ => none

/-- Without a complaint all specifications are satisfied and the numbers can be had, and with one
some specification is not satisfied. -/
def Enforces (specs : NumericSpecs) (request : QueryParam.HttpRequest) : Prop :=
  ∃ processedParamList complaint,
    processServiceRequestParams specs.paramSpecList request = .ok (processedParamList, complaint) ∧
      (complaint = none → ∀ spec ∈ specs.paramSpecList,
        (IsRequired spec → ∃ text, Supplied request spec text) ∧
          ∀ text, Supplied request spec text → ∃ z, IsDecimal text z ∧ InBounds spec z ∧
            (getCheckedParam processedParamList spec.name).bind (·.value.number) = some z) ∧
      (complaint ≠ none → ∃ spec ∈ specs.paramSpecList, ¬ Satisfied request spec)

/-! When it is -/

/-- The number that a text begins with, after white space. It is 0 if there is none. -/
def leading (text : CString) : ℤ :=
  let text := (CString.ofBytes (toASCIIUTF8 text.bytes)).bytes.dropWhile fun b => isspace b.toInt
  let (negative, text) := splitSign text
  let n := Decimal.value ((text.takeWhile fun b => isdigit b.toInt).map fun b => b.toNat - 0x30)
  if negative then -n else n

def ServiceArgType.Fits (z : ℤ) : ServiceArgType → Prop
  | .int _ _ => -2 ^ 31 ≤ z ∧ z < 2 ^ 31
  | .int64 _ _ => -2 ^ 63 ≤ z ∧ z < 2 ^ 63
  | _ => True

/-- What a number is taken for: 64 bits wrap around, and numbers of more bits are all the same. -/
def ServiceArgType.taken (z : ℤ) : ServiceArgType → ℤ
  | .int64 _ _ => if 2 ^ 64 ≤ z.natAbs then -1 else (BitVec.ofInt 64 z).toInt
  | _ => z

def Missing (request : QueryParam.HttpRequest) (spec : HttpRequestParamSpec) : Prop :=
  IsRequired spec ∧ getQueryParam request spec.name = .ok none

/-- The query can be searched, and the number of an `int` is one. -/
def Readable (request : QueryParam.HttpRequest) (spec : HttpRequestParamSpec) : Prop :=
  ∃ paramString, getQueryParam request spec.name = .ok paramString ∧
    ∀ text, paramString = some text → ∀ lowBound highBound, spec.type = .int lowBound highBound →
      spec.type.Fits (leading text)

/-- What is taken for the number is not in the bounds. -/
def Refused (request : QueryParam.HttpRequest) (spec : HttpRequestParamSpec) : Prop :=
  ∃ text, Supplied request spec text ∧ ¬ InBounds spec (spec.type.taken (leading text))

open Classical in
/-- Up to the first parameter that is missing all can be read. If none is missing, either all
specifications are satisfied with numbers that fit, or not all are and a number is refused. -/
def CanEnforce (paramSpecList : List HttpRequestParamSpec) (request : QueryParam.HttpRequest) : Prop :=
  (∀ spec ∈ paramSpecList.takeWhile fun spec => ¬ Missing request spec, Readable request spec) ∧
    ((∃ spec ∈ paramSpecList, Missing request spec) ∨
      (∀ spec ∈ paramSpecList, Satisfied request spec ∧
        ∀ text z, Supplied request spec text → IsDecimal text z → spec.type.Fits z) ∨
      ((∃ spec ∈ paramSpecList, Refused request spec) ∧
        ∃ spec ∈ paramSpecList, ¬ Satisfied request spec))

section Numbers

variable {text : CString} {z : ℤ}

theorem atoi_eq (text : CString) :
    atoi text = if -2 ^ 31 ≤ leading text ∧ leading text < 2 ^ 31 then
      .ok (BitVec.ofInt 32 (leading text)) else .error .undefinedBehaviour := rfl

theorem ofBytes_toASCIIUTF8 {ascii : List Byte} (h : NoNul ascii) :
    (CString.ofBytes (toASCIIUTF8 (ascii.map toIbm1047))).bytes = ascii := by
  rw [Ebcdic.toASCIIUTF8_map_toIbm1047]
  exact CString.ofBytes_of_noNul h

section Digits

variable {ds : List ℕ} (hds : ∀ d ∈ ds, d < 10)
include hds

theorem noNul_digits : NoNul (ds.map digitChar) := by
  intro c hc
  obtain ⟨d, hd, rfl⟩ := List.mem_map.mp hc
  exact CLibrary.digitChar_ne_zero (Nat.lt_trans (hds d hd) (by decide))

theorem takeWhile_isdigit :
    ((ds.map digitChar).takeWhile fun b => isdigit b.toInt) = ds.map digitChar := by
  apply List.takeWhile_eq_self_iff.mpr
  intro c hc
  obtain ⟨d, hd, rfl⟩ := List.mem_map.mp hc
  exact CLibrary.isdigit_digitChar (hds d hd)

theorem digits_of_chars : ((ds.map digitChar).map fun b => b.toNat - 0x30) = ds := by
  have hid : ds.map ((fun b : Byte => b.toNat - 0x30) ∘ digitChar) = ds.map id := by
    apply List.map_congr_left
    intro d hd
    have hnat := CLibrary.toNat_digitChar (hds d hd)
    change (digitChar d).toNat - 0x30 = d
    omega
  rw [List.map_map, hid, List.map_id]

theorem dropWhile_isspace (hne : ds ≠ []) :
    ((ds.map digitChar).dropWhile fun b => isspace b.toInt) = ds.map digitChar := by
  cases ds with
  | nil => exact absurd rfl hne
  | cons d ds =>
    rw [List.map_cons, List.dropWhile_cons_of_neg]
    rw [CLibrary.not_isspace_digitChar (hds d List.mem_cons_self)]
    exact Bool.false_ne_true

theorem splitSign_digits (hne : ds ≠ []) :
    splitSign (ds.map digitChar) = (false, ds.map digitChar) := by
  cases ds with
  | nil => exact absurd rfl hne
  | cons d ds =>
    have hd := hds d List.mem_cons_self
    have hminus : some (digitChar d) ≠ some 0x2D := by
      rw [ne_eq, Option.some_inj]
      exact CLibrary.digitChar_ne hd (by decide)
    have hplus : some (digitChar d) ≠ some 0x2B := by
      rw [ne_eq, Option.some_inj]
      exact CLibrary.digitChar_ne hd (by decide)
    rw [splitSign, List.map_cons, List.head?_cons, if_neg hminus, if_neg hplus]

end Digits

/-- What is left of a decimal number after its sign. -/
theorem leading_of_isDecimal (h : IsDecimal text z) : leading text = z := by
  obtain ⟨sign, ds, htext, hne, hds, hsign⟩ := h
  have hnul : NoNul (sign ++ ds.map digitChar) := by
    apply NoNul.append
    · rcases hsign with ⟨rfl | rfl, -⟩ | ⟨rfl, -⟩ <;> decide
    · exact noNul_digits hds
  have hdrop : ((sign ++ ds.map digitChar).dropWhile fun b => isspace b.toInt) =
      sign ++ ds.map digitChar := by
    rcases hsign with ⟨rfl | rfl, -⟩ | ⟨rfl, -⟩
    · exact dropWhile_isspace hds hne
    · rfl
    · rfl
  have hsplit : splitSign (sign ++ ds.map digitChar) = (decide (sign = [0x2D]), ds.map digitChar) := by
    rcases hsign with ⟨rfl | rfl, -⟩ | ⟨rfl, -⟩
    · exact splitSign_digits hds hne
    · rfl
    · rfl
  unfold leading
  rw [htext, ofBytes_toASCIIUTF8 hnul, hdrop]
  dsimp only
  rw [hsplit]
  dsimp only
  rw [takeWhile_isdigit hds, digits_of_chars hds]
  rcases hsign with ⟨rfl | rfl, rfl⟩ | ⟨rfl, rfl⟩
  · rfl
  · rfl
  · rfl

theorem toInt_wrapped (negative : Bool) (n : ℕ) :
    (if 2 ^ 64 ≤ n then BitVec.allOnes 64
      else BitVec.ofInt 64 (if negative then -(n : ℤ) else n)).toInt =
    if 2 ^ 64 ≤ (if negative then -(n : ℤ) else n).natAbs then -1
    else (BitVec.ofInt 64 (if negative then -(n : ℤ) else n)).toInt := by
  have habs : (if negative then -(n : ℤ) else n).natAbs = n := by
    split_ifs
    · exact Int.natAbs_neg n
    · rfl
  rw [habs]
  split_ifs
  all_goals rfl

theorem strtoull10_toInt (text : CString) (lowBound64 highBound64 : BitVec 64) :
    (strtoull10 text).toInt =
      ServiceArgType.taken (leading text) (.int64 lowBound64 highBound64) :=
  toInt_wrapped _ _

theorem toInt_ofInt (hz : -2 ^ 31 ≤ z ∧ z < 2 ^ 31) : (BitVec.ofInt 32 z).toInt = z :=
  BitVec.toInt_ofInt_eq_self (by decide) hz.1 hz.2

theorem taken_of_fits {type : ServiceArgType} (h : type.Fits z) : type.taken z = z := by
  cases type with
  | int64 lowBound64 highBound64 =>
    obtain ⟨hlow, hhigh⟩ := h
    have habs : ¬ 2 ^ 64 ≤ z.natAbs := by omega
    rw [ServiceArgType.taken, if_neg habs]
    exact BitVec.toInt_ofInt_eq_self (by decide) hlow hhigh
  | _ => rfl

/-- What a number of 64 bits is taken for always fits. -/
theorem fits_of_taken {lowBound64 highBound64 : BitVec 64}
    (h : ServiceArgType.taken z (.int64 lowBound64 highBound64) = z) :
    ServiceArgType.Fits z (.int64 lowBound64 highBound64) := by
  rw [← h, ServiceArgType.taken]
  split_ifs
  · exact ⟨by decide, by decide⟩
  · have hlow := BitVec.le_toInt (BitVec.ofInt 64 z)
    have hhigh := BitVec.toInt_lt (x := BitVec.ofInt 64 z)
    exact ⟨by simpa using hlow, by simpa using hhigh⟩

end Numbers

section Run

variable {request : QueryParam.HttpRequest} {spec : HttpRequestParamSpec}
  {specs : List HttpRequestParamSpec}
  {params : List HttpRequestParam} {complaint : Option CString}

theorem checkBounds_eq_none_iff {value lowBound highBound : ℤ} :
    checkBounds spec value lowBound highBound complaint = none ↔ complaint = none ∧
      (spec.flags &&& SERVICE_ARG_HAS_LOW_BOUND ≠ 0 → lowBound ≤ value) ∧
      (spec.flags &&& SERVICE_ARG_HAS_HIGH_BOUND ≠ 0 → value ≤ highBound) := by
  unfold checkBounds
  dsimp only
  split_ifs with hhigh hlow
  · refine ⟨fun h => h.elim, fun h => ?_⟩
    have := h.2.2 hhigh.1
    omega
  · refine ⟨fun h => h.elim, fun h => ?_⟩
    have := h.2.1 hlow.1
    omega
  · simp only [not_and, not_lt] at hhigh hlow
    exact ⟨fun h => ⟨h, hlow, hhigh⟩, fun h => h.1⟩

theorem inBounds_int {lowBound highBound : BitVec 32} (h : spec.type = .int lowBound highBound)
    {z : ℤ} : InBounds spec z ↔
      (spec.flags &&& SERVICE_ARG_HAS_LOW_BOUND ≠ 0 → lowBound.toInt ≤ z) ∧
        (spec.flags &&& SERVICE_ARG_HAS_HIGH_BOUND ≠ 0 → z ≤ highBound.toInt) := by
  rw [InBounds, h, ServiceArgType.InRange, decide_eq_true_iff, decide_eq_true_iff]

theorem inBounds_int64 {lowBound64 highBound64 : BitVec 64}
    (h : spec.type = .int64 lowBound64 highBound64) {z : ℤ} : InBounds spec z ↔
      (spec.flags &&& SERVICE_ARG_HAS_LOW_BOUND ≠ 0 → lowBound64.toInt ≤ z) ∧
        (spec.flags &&& SERVICE_ARG_HAS_HIGH_BOUND ≠ 0 → z ≤ highBound64.toInt) := by
  rw [InBounds, h, ServiceArgType.InRange, decide_eq_true_iff, decide_eq_true_iff]

def paramOf (request : QueryParam.HttpRequest) (spec : HttpRequestParamSpec) : Option HttpRequestParam :=
  match getQueryParam request spec.name with
  | .ok (some text) =>
    match spec.type with
    | .int _ _ => some (makeIntParam spec (BitVec.ofInt 32 (leading text)))
    | .int64 _ _ => some (makeInt64Param spec (strtoull10 text))
    | _ => none
  | _ => none

theorem process_missing (h : Missing request spec) :
    processSpecs request (spec :: specs) params complaint = .ok (params, some (notSupplied spec)) := by
  rw [processSpecs, h.2, Exec.ok_bind]
  exact if_pos h.1

variable (specs params complaint) in
theorem process_readable (hnumeric : spec.type.IsNumeric) (h : Readable request spec)
    (hmissing : ¬ Missing request spec) :
    ∃ complaint', (complaint' = none ↔ complaint = none ∧ ¬ Refused request spec) ∧
      processSpecs request (spec :: specs) params complaint =
        processSpecs request specs (params ++ (paramOf request spec).toList) complaint' := by
  obtain ⟨paramString, hget, hfits⟩ := h
  cases paramString with
  | none =>
    have hrefused : ¬ Refused request spec := by
      rintro ⟨text, hsome, -⟩
      rw [Supplied, hget] at hsome
      cases hsome
    refine ⟨complaint, ⟨fun h => ⟨h, hrefused⟩, fun h => h.1⟩, ?_⟩
    rw [processSpecs, paramOf, hget, Exec.ok_bind]
    simp only [Option.toList_none, List.append_nil]
    exact if_neg fun hrequired => hmissing ⟨hrequired, hget⟩
  | some text =>
    have hrefused : Refused request spec ↔ ¬ InBounds spec (spec.type.taken (leading text)) := by
      constructor
      · rintro ⟨text', hsome, h⟩
        obtain rfl := Option.some.inj (Except.ok.inj (hget.symm.trans hsome))
        exact h
      · exact fun h => ⟨text, hget, h⟩
    rw [hrefused, not_not]
    cases htype : spec.type with
    | int lowBound highBound =>
      have hfit := hfits text rfl lowBound highBound htype
      rw [htype] at hfit
      have hint : -2 ^ 31 ≤ leading text ∧ leading text < 2 ^ 31 := hfit
      refine ⟨checkBounds spec (BitVec.ofInt 32 (leading text)).toInt lowBound.toInt highBound.toInt
        complaint, ?_, ?_⟩
      · rw [checkBounds_eq_none_iff, toInt_ofInt hint, inBounds_int htype]
        rfl
      · rw [processSpecs, paramOf, hget, Exec.ok_bind]
        simp only [htype]
        rw [atoi_eq, if_pos hint, Exec.ok_bind]
        rfl
    | int64 lowBound64 highBound64 =>
      refine ⟨checkBounds spec (strtoull10 text).toInt lowBound64.toInt highBound64.toInt
        complaint, ?_, ?_⟩
      · rw [checkBounds_eq_none_iff, strtoull10_toInt text lowBound64 highBound64,
          inBounds_int64 htype]
      · rw [processSpecs, paramOf, hget, Exec.ok_bind]
        simp only [htype]
        rfl
    | string => exact (by rw [htype] at hnumeric; exact hnumeric : False).elim
    | date => exact (by rw [htype] at hnumeric; exact hnumeric : False).elim
    | hex => exact (by rw [htype] at hnumeric; exact hnumeric : False).elim

theorem process_unreadable (h : ¬ Readable request spec)
    (result : List HttpRequestParam × Option CString) :
    processSpecs request (spec :: specs) params complaint ≠ .ok result := by
  cases hget : getQueryParam request spec.name with
  | error fault =>
    rw [processSpecs, hget]
    intro hok
    cases hok
  | ok paramString =>
    have hbad : ∃ text lowBound highBound, paramString = some text ∧
        spec.type = .int lowBound highBound ∧ ¬ (-2 ^ 31 ≤ leading text ∧ leading text < 2 ^ 31) := by
      by_contra hgood
      apply h
      refine ⟨paramString, hget, fun text htext lowBound highBound htype => ?_⟩
      rw [htype]
      by_contra hfits
      exact hgood ⟨text, lowBound, highBound, htext, htype, hfits⟩
    obtain ⟨text, lowBound, highBound, rfl, htype, hfits⟩ := hbad
    rw [processSpecs, hget, Exec.ok_bind]
    simp only [htype]
    rw [atoi_eq, if_neg hfits]
    intro hok
    cases hok

open Classical in
theorem process_ok (params : List HttpRequestParam) (complaint : Option CString)
    (hnumeric : ∀ spec ∈ specs, spec.type.IsNumeric)
    (h : ∀ spec ∈ specs.takeWhile fun spec => ¬ Missing request spec, Readable request spec) :
    ∃ complaint',
      processSpecs request specs params complaint =
        .ok (params ++ (specs.takeWhile fun spec => ¬ Missing request spec).filterMap
          (paramOf request), complaint') ∧
      (complaint' = none ↔ complaint = none ∧
        (∀ spec ∈ specs, ¬ Missing request spec) ∧
        ∀ spec ∈ specs.takeWhile fun spec => ¬ Missing request spec, ¬ Refused request spec) := by
  induction specs generalizing params complaint with
  | nil =>
    refine ⟨complaint, ?_, ?_⟩
    · rw [processSpecs, List.takeWhile_nil, List.filterMap_nil, List.append_nil]
      rfl
    · simp
  | cons spec specs ih =>
    obtain ⟨hspec, hspecs⟩ := List.forall_mem_cons.mp hnumeric
    by_cases hmissing : Missing request spec
    · rw [List.takeWhile_cons_of_neg (by simpa using hmissing)]
      refine ⟨some (notSupplied spec), ?_, ?_⟩
      · rw [process_missing hmissing, List.filterMap_nil, List.append_nil]
      · simp [hmissing]
    · rw [List.takeWhile_cons_of_pos (by simpa using hmissing)] at h ⊢
      obtain ⟨hread, hrest⟩ := List.forall_mem_cons.mp h
      obtain ⟨complaint₁, hnone₁, hstep⟩ := process_readable specs params complaint hspec
        hread hmissing
      obtain ⟨complaint₂, hrun, hnone₂⟩ := @ih (params ++ (paramOf request spec).toList)
        complaint₁ hspecs hrest
      refine ⟨complaint₂, ?_, ?_⟩
      · rw [hstep, hrun, List.append_assoc, List.filterMap_cons]
        cases paramOf request spec <;> rfl
      · rw [hnone₂, hnone₁, List.forall_mem_cons, List.forall_mem_cons]
        tauto

open Classical in
theorem process_error (hnumeric : ∀ spec ∈ specs, spec.type.IsNumeric)
    (h : ¬ ∀ spec ∈ specs.takeWhile fun spec => ¬ Missing request spec, Readable request spec) :
    ∀ result, processSpecs request specs params complaint ≠ .ok result := by
  induction specs generalizing params complaint with
  | nil => exact absurd (List.forall_mem_nil _) h
  | cons spec specs ih =>
    obtain ⟨hspec, hspecs⟩ := List.forall_mem_cons.mp hnumeric
    by_cases hmissing : Missing request spec
    · rw [List.takeWhile_cons_of_neg (by simpa using hmissing)] at h
      exact absurd (List.forall_mem_nil _) h
    · rw [List.takeWhile_cons_of_pos (by simpa using hmissing), List.forall_mem_cons] at h
      by_cases hread : Readable request spec
      · obtain ⟨complaint₁, -, hstep⟩ := process_readable specs params complaint hspec
          hread hmissing
        rw [hstep]
        exact ih hspecs fun hrest => h ⟨hread, hrest⟩
      · exact process_unreadable hread

theorem paramOf_supplied {text : CString} (hnumeric : spec.type.IsNumeric)
    (hread : Readable request spec) (h : Supplied request spec text) :
    ∃ param, paramOf request spec = some param ∧ param.specification = spec ∧
      param.value.number = some (spec.type.taken (leading text)) := by
  obtain ⟨paramString, hget, hfits⟩ := hread
  obtain rfl := Except.ok.inj (hget.symm.trans h)
  rw [paramOf, hget]
  cases htype : spec.type with
  | int lowBound highBound =>
    have hfit := hfits text rfl lowBound highBound htype
    rw [htype] at hfit
    refine ⟨_, rfl, rfl, ?_⟩
    exact congrArg some (toInt_ofInt hfit)
  | int64 lowBound64 highBound64 =>
    exact ⟨_, rfl, rfl, congrArg some (strtoull10_toInt text lowBound64 highBound64)⟩
  | _ => exact (by rw [htype] at hnumeric; exact hnumeric : False).elim

theorem name_of_paramOf {param : HttpRequestParam} (h : paramOf request spec = some param) :
    param.specification = spec ∧ ∃ text, Supplied request spec text := by
  unfold paramOf at h
  split at h
  · rename_i text hget
    refine ⟨?_, text, hget⟩
    split at h
    · exact Option.some.inj h ▸ rfl
    · exact Option.some.inj h ▸ rfl
    · cases h
  · cases h

theorem getCheckedParam_cons (param : HttpRequestParam) (paramName : CString) :
    getCheckedParam (param :: params) paramName =
      if param.specification.name = paramName then some param
      else getCheckedParam params paramName := by
  unfold getCheckedParam
  rw [List.find?_cons]
  split_ifs with h
  · rw [decide_eq_true h]
  · rw [decide_eq_false h]

theorem getCheckedParam_eq (hnumeric : ∀ spec ∈ specs, spec.type.IsNumeric)
    (hread : ∀ spec ∈ specs, Readable request spec) {text : CString} (hmem : spec ∈ specs)
    (h : Supplied request spec text) :
    ∃ first ∈ specs, first.name = spec.name ∧
      (getCheckedParam (specs.filterMap (paramOf request)) spec.name).bind (·.value.number) =
        some (first.type.taken (leading text)) := by
  induction specs with
  | nil => cases hmem
  | cons head specs ih =>
    obtain ⟨hheadNumeric, hnumeric⟩ := List.forall_mem_cons.mp hnumeric
    obtain ⟨hheadRead, hread⟩ := List.forall_mem_cons.mp hread
    by_cases hname : head.name = spec.name
    · have hhead : Supplied request head text := by
        rw [Supplied, hname]
        exact h
      obtain ⟨param, hparam, hspec, hnumber⟩ := paramOf_supplied hheadNumeric hheadRead hhead
      refine ⟨head, List.mem_cons_self, hname, ?_⟩
      rw [List.filterMap_cons_some hparam, getCheckedParam_cons, hspec, if_pos hname]
      exact hnumber
    · have hmem : spec ∈ specs := by
        rcases List.mem_cons.mp hmem with rfl | hmem
        · exact absurd rfl hname
        · exact hmem
      obtain ⟨first, hfirst, hfirstName, hnumber⟩ := ih hnumeric hread hmem
      refine ⟨first, List.mem_cons_of_mem _ hfirst, hfirstName, ?_⟩
      rw [← hnumber, List.filterMap_cons]
      cases hparam : paramOf request head with
      | none => rfl
      | some param => simp only [getCheckedParam_cons, (name_of_paramOf hparam).1, if_neg hname]

end Run

section Enforced

variable {request : QueryParam.HttpRequest} {specs : NumericSpecs}

/-- Where nothing is missing and all is in its bounds, as it is read. -/
theorem satisfied_iff_of_not_refused {paramSpecList : List HttpRequestParamSpec}
    (hnumeric : ∀ spec ∈ paramSpecList, spec.type.IsNumeric)
    (hread : ∀ spec ∈ paramSpecList, Readable request spec) :
    (∀ spec ∈ paramSpecList, (IsRequired spec → ∃ text, Supplied request spec text) ∧
      ∀ text, Supplied request spec text → ∃ z, IsDecimal text z ∧ InBounds spec z ∧
        (getCheckedParam (paramSpecList.filterMap (paramOf request)) spec.name).bind
          (·.value.number) = some z) ↔
    ∀ spec ∈ paramSpecList, Satisfied request spec ∧
      ∀ text z, Supplied request spec text → IsDecimal text z → spec.type.Fits z := by
  constructor
  · intro h spec hmem
    obtain ⟨hrequired, hnumber⟩ := h spec hmem
    constructor
    · refine ⟨hrequired, fun text htext => ?_⟩
      obtain ⟨z, hdecimal, hbounds, -⟩ := hnumber text htext
      exact ⟨z, hdecimal, hbounds⟩
    · intro text z htext hdecimal
      obtain ⟨z', hdecimal', -, hchecked⟩ := hnumber text htext
      have hz : z' = z := (leading_of_isDecimal hdecimal').symm.trans (leading_of_isDecimal hdecimal)
      obtain ⟨first, hfirst, hname, htaken⟩ := getCheckedParam_eq hnumeric hread hmem htext
      have htakenz : first.type.taken z = z := by
        rw [hchecked, leading_of_isDecimal hdecimal, hz] at htaken
        exact (Option.some.inj htaken).symm
      have hint {other : HttpRequestParamSpec} (hother : other ∈ paramSpecList)
          (hotherName : other.name = spec.name) {lowBound highBound : BitVec 32}
          (htype : other.type = .int lowBound highBound) : -2 ^ 31 ≤ z ∧ z < 2 ^ 31 := by
        obtain ⟨paramString, hget, hfits⟩ := hread other hother
        rw [hotherName] at hget
        have hsome := Except.ok.inj (hget.symm.trans htext)
        have hfit := hfits text hsome lowBound highBound htype
        rw [htype, leading_of_isDecimal hdecimal] at hfit
        exact hfit
      cases htype : spec.type with
      | int lowBound highBound => exact hint hmem rfl htype
      | int64 lowBound64 highBound64 =>
        cases hfirstType : first.type with
        | int lowBound highBound =>
          have hrange := hint hfirst hname hfirstType
          exact ⟨by omega, by omega⟩
        | int64 lowBound64 highBound64 =>
          rw [hfirstType] at htakenz
          exact fits_of_taken htakenz
        | _ =>
          have hfalse := hnumeric first hfirst
          rw [hfirstType] at hfalse
          exact hfalse.elim
      | _ => trivial
  · intro h spec hmem
    obtain ⟨hsatisfied, -⟩ := h spec hmem
    refine ⟨hsatisfied.required, fun text htext => ?_⟩
    obtain ⟨z, hdecimal, hbounds⟩ := hsatisfied.number text htext
    obtain ⟨first, hfirst, hname, htaken⟩ := getCheckedParam_eq hnumeric hread hmem htext
    have hsupplied : Supplied request first text := by
      rw [Supplied, hname]
      exact htext
    refine ⟨z, hdecimal, hbounds, ?_⟩
    rw [htaken, leading_of_isDecimal hdecimal,
      taken_of_fits ((h first hfirst).2 text z hsupplied hdecimal)]

theorem not_satisfied_of_missing {spec : HttpRequestParamSpec} (h : Missing request spec) :
    ¬ Satisfied request spec := by
  intro hsatisfied
  obtain ⟨text, htext⟩ := hsatisfied.required h.1
  have hnone := h.2.symm.trans htext
  cases hnone

theorem not_refused_of_satisfied {spec : HttpRequestParamSpec} (h : Satisfied request spec)
    (hfits : ∀ text z, Supplied request spec text → IsDecimal text z → spec.type.Fits z) :
    ¬ Refused request spec := by
  rintro ⟨text, htext, hrefused⟩
  obtain ⟨z, hdecimal, hbounds⟩ := h.number text htext
  apply hrefused
  rw [leading_of_isDecimal hdecimal, taken_of_fits (hfits text z htext hdecimal)]
  exact hbounds

open Classical in
theorem enforces_of_run {complaint : Option CString} (hread : ∀ spec ∈ specs.paramSpecList.takeWhile
      fun spec => ¬ Missing request spec, Readable request spec)
    (hrun : processSpecs request specs.paramSpecList [] none =
      .ok ((specs.paramSpecList.takeWhile fun spec => ¬ Missing request spec).filterMap
        (paramOf request), complaint))
    (hnone : complaint = none ↔ (∀ spec ∈ specs.paramSpecList, ¬ Missing request spec) ∧
      ∀ spec ∈ specs.paramSpecList.takeWhile fun spec => ¬ Missing request spec,
        ¬ Refused request spec) :
    Enforces specs request ↔ CanEnforce specs.paramSpecList request := by
  have hcan : CanEnforce specs.paramSpecList request ↔
      ((∃ spec ∈ specs.paramSpecList, Missing request spec) ∨
        (∀ spec ∈ specs.paramSpecList, Satisfied request spec ∧
          ∀ text z, Supplied request spec text → IsDecimal text z → spec.type.Fits z) ∨
        ((∃ spec ∈ specs.paramSpecList, Refused request spec) ∧
          ∃ spec ∈ specs.paramSpecList, ¬ Satisfied request spec)) :=
    ⟨fun h => h.2, fun h => ⟨hread, h⟩⟩
  rw [hcan]
  by_cases hmissing : ∃ spec ∈ specs.paramSpecList, Missing request spec
  · obtain ⟨spec, hmem, hspec⟩ := hmissing
    have hsome : complaint ≠ none := fun h => (hnone.mp h).1 spec hmem hspec
    refine ⟨fun _ => Or.inl ⟨spec, hmem, hspec⟩, fun _ => ⟨_, complaint, hrun, ?_, ?_⟩⟩
    · exact fun h => absurd h hsome
    · exact fun _ => ⟨spec, hmem, not_satisfied_of_missing hspec⟩
  · have hall : ∀ spec ∈ specs.paramSpecList, ¬ Missing request spec :=
      fun spec hmem hspec => hmissing ⟨spec, hmem, hspec⟩
    have htake : (specs.paramSpecList.takeWhile fun spec => ¬ Missing request spec) =
        specs.paramSpecList :=
      List.takeWhile_eq_self_iff.mpr fun spec hmem => decide_eq_true (hall spec hmem)
    rw [htake] at hread hrun hnone
    have hnone' : complaint = none ↔ ∀ spec ∈ specs.paramSpecList, ¬ Refused request spec :=
      hnone.trans ⟨fun h => h.2, fun h => ⟨hall, h⟩⟩
    have henforces : Enforces specs request ↔
        (complaint = none → ∀ spec ∈ specs.paramSpecList, Satisfied request spec ∧
          ∀ text z, Supplied request spec text → IsDecimal text z → spec.type.Fits z) ∧
        (complaint ≠ none → ∃ spec ∈ specs.paramSpecList, ¬ Satisfied request spec) := by
      rw [← satisfied_iff_of_not_refused specs.isNumeric hread]
      constructor
      · rintro ⟨params, complaint', hrun', h⟩
        obtain ⟨rfl, rfl⟩ := Prod.mk.inj (Except.ok.inj (hrun.symm.trans hrun'))
        exact h
      · exact fun h => ⟨_, complaint, hrun, h⟩
    rw [henforces]
    by_cases hrefused : ∃ spec ∈ specs.paramSpecList, Refused request spec
    · obtain ⟨spec, hmem, hspec⟩ := hrefused
      have hsome : complaint ≠ none := fun h => hnone'.mp h spec hmem hspec
      refine ⟨fun h => Or.inr (Or.inr ⟨⟨spec, hmem, hspec⟩, h.2 hsome⟩), ?_⟩
      rintro (h | h | h)
      · exact absurd h hmissing
      · exact absurd hspec (not_refused_of_satisfied (h spec hmem).1 (h spec hmem).2)
      · exact ⟨fun hnull => absurd hnull hsome, fun _ => h.2⟩
    · have hnull : complaint = none :=
        hnone'.mpr fun spec hmem hspec => hrefused ⟨spec, hmem, hspec⟩
      refine ⟨fun h => Or.inr (Or.inl (h.1 hnull)), ?_⟩
      rintro (h | h | h)
      · exact absurd h hmissing
      · exact ⟨fun _ => h, fun hsome => absurd hnull hsome⟩
      · exact absurd h.1 hrefused

open Classical in
/-- The specifications are enforced if and only if they can be. -/
theorem enforces_iff (specs : NumericSpecs) (request : QueryParam.HttpRequest) :
    Enforces specs request ↔ CanEnforce specs.paramSpecList request := by
  by_cases hread : ∀ spec ∈ specs.paramSpecList.takeWhile fun spec => ¬ Missing request spec,
      Readable request spec
  · obtain ⟨complaint, hrun, hnone⟩ := process_ok [] none specs.isNumeric hread
    apply enforces_of_run hread hrun
    simpa using hnone
  · constructor
    · rintro ⟨processedParamList, complaint, hrun, -⟩
      exact absurd hrun (process_error specs.isNumeric hread _)
    · exact fun h => absurd h.1 hread

end Enforced

/-- A query for `n`, with the largest number of 64 bits. -/
def largeRequest : QueryParam.HttpRequest where
  queryString := ⟨CString.ascii "n=18446744073709551615", by decide⟩
  queryStringLen := by decide

def largeText : CString := .ofBytes (literal "18446744073709551615")

/-- Numbers from -5 to 0. -/
def smallSpec : HttpRequestParamSpec :=
  ⟨.ofBytes (literal "n"), SERVICE_ARG_HAS_LOW_BOUND ||| SERVICE_ARG_HAS_HIGH_BOUND,
    .int64 (-5) 0⟩

theorem supplied_largeText : Supplied largeRequest smallSpec largeText := by
  have hget : getQueryParam largeRequest smallSpec.name = .ok (some largeText) := by decide +kernel
  exact hget

/-- A number that is too large is taken for -1. -/
theorem not_enforces :
    ¬ ∀ (specs : NumericSpecs) (request : QueryParam.HttpRequest), Enforces specs request := by
  intro h
  obtain ⟨params, complaint, hrun, hnone, -⟩ :=
    h (NumericSpecs.empty.addInt64 smallSpec.name smallSpec.flags (-5) 0) largeRequest
  have hcomplaint : complaint = none := by
    have hvalue : strtoull10 largeText = -1 := by decide +kernel
    have hbounds : checkBounds smallSpec (-1 : BitVec 64).toInt (-5 : BitVec 64).toInt
        (0 : BitVec 64).toInt none = none := by decide
    change processSpecs largeRequest [smallSpec] [] none = _ at hrun
    rw [processSpecs, supplied_largeText, Exec.ok_bind] at hrun
    change processSpecs largeRequest [] _ (checkBounds smallSpec (strtoull10 largeText).toInt _ _ _) =
      _ at hrun
    rw [hvalue, hbounds] at hrun
    exact (Prod.mk.inj (Except.ok.inj hrun)).2.symm
  obtain ⟨-, hnumber⟩ := hnone hcomplaint smallSpec List.mem_cons_self
  obtain ⟨z, hdecimal, hbounds, -⟩ := hnumber largeText supplied_largeText
  have hz : z = 18446744073709551615 := by
    rw [← leading_of_isDecimal hdecimal]
    decide +kernel
  have hhigh := ((inBounds_int64 rfl).mp hbounds).2 (by decide)
  rw [hz] at hhigh
  exact absurd hhigh (by decide)

end ServiceParams
end Http
end ZoweCommon
