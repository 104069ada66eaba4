import ZoweCommon.Json.ParserText

/-! What a text of JSON says, with numbers of any size. -/
namespace ZoweCommon

open CLibrary CString JsonTokenizer

inductive JsonValue
  | number (z : ℤ)
  | string (s : CString)
  | boolean (b : Bool)
  | null
  | object (properties : List (CString × JsonValue))
  | array (elements : List JsonValue)

namespace JsonValue

mutual

/-- The tree with each number in an `int`. -/
def toJson : JsonValue → Json
  | .number z => .scalar (.number (BitVec.ofInt 32 z))
  | .string s => .scalar (.string s)
  | .boolean b => .scalar (.boolean b)
  | .null => .scalar .null
  | .object properties => .object (toProperties properties)
  | .array elements => .array (toElements elements)

def toProperties : List (CString × JsonValue) → List (CString × Json)
  | [] => []
  | (key, value) :: properties => (key, toJson value) :: toProperties properties

def toElements : List JsonValue → List Json
  | [] => []
  | value :: elements => toJson value :: toElements elements

end

/-- Every number, at any depth, is an `int`. -/
inductive FitsInt : JsonValue → Prop
  | number {z : ℤ} (hlo : -2 ^ 31 ≤ z) (hhi : z < 2 ^ 31) : FitsInt (.number z)
  | string (s : CString) : FitsInt (.string s)
  | boolean (b : Bool) : FitsInt (.boolean b)
  | null : FitsInt .null
  | object {properties : List (CString × JsonValue)} (h : ∀ p ∈ properties, FitsInt p.2) :
      FitsInt (.object properties)
  | array {elements : List JsonValue} (h : ∀ v ∈ elements, FitsInt v) : FitsInt (.array elements)

theorem fitsInt_number {z : ℤ} : FitsInt (.number z) ↔ -2 ^ 31 ≤ z ∧ z < 2 ^ 31 := by
  constructor
  · rintro ⟨hlo, hhi⟩
    exact ⟨hlo, hhi⟩
  · exact fun h => .number h.1 h.2

theorem fitsInt_array {elements : List JsonValue} :
    FitsInt (.array elements) ↔ ∀ v ∈ elements, FitsInt v := by
  constructor
  · rintro ⟨h⟩
    assumption
  · exact .array

theorem fitsInt_object {properties : List (CString × JsonValue)} :
    FitsInt (.object properties) ↔ ∀ p ∈ properties, FitsInt p.2 := by
  constructor
  · rintro ⟨h⟩
    assumption
  · exact .object

end JsonValue

/-! The texts -/

def IsSpace (space : List Byte) : Prop := ∀ c ∈ space, isspace c.toInt = true

/-- A numeral has no leading zeros. The sign of a zero is nothing. -/
def numeral (negative : Bool) (n : ℕ) : List Byte :=
  (if negative then [0x2D] else []) ++ (Decimal.digits n).map digitChar

def numeralValue (negative : Bool) (n : ℕ) : ℤ := if negative then -n else n

/-- A sign and digits, whatever they begin with. -/
def signedDigits (negative : Bool) (ds : List ℕ) : List Byte :=
  (if negative then [0x2D] else []) ++ ds.map digitChar

mutual

inductive Spells : List Byte → JsonValue → Prop
  | number (negative : Bool) (n : ℕ) :
      Spells (numeral negative n) (.number (numeralValue negative n))
  | string {body s : List Byte} (h : Decodes body s) (hroom : s.length ≤ MAX_TOKEN) :
      Spells (0x22 :: body ++ [0x22]) (.string (ofBytes s))
  | boolean (b : Bool) : Spells (if b then ascii "true" else ascii "false") (.boolean b)
  | null : Spells (ascii "null") .null
  | object {text : List Byte} {properties : List (CString × JsonValue)}
      (h : SpellsProperties text properties) :
      Spells (0x7B :: text ++ [0x7D]) (.object properties)
  | array {text : List Byte} {elements : List JsonValue} (h : SpellsElements text elements) :
      Spells (0x5B :: text ++ [0x5D]) (.array elements)

/-- What is between the braces of an object. -/
inductive SpellsProperties : List Byte → List (CString × JsonValue) → Prop
  | nil {space : List Byte} (h : IsSpace space) : SpellsProperties space []
  | single {text : List Byte} {p : CString × JsonValue} (h : SpellsProperty text p) :
      SpellsProperties text [p]
  | cons {text more : List Byte} {p : CString × JsonValue}
      {properties : List (CString × JsonValue)} (h : SpellsProperty text p)
      (hmore : SpellsProperties more properties) :
      SpellsProperties (text ++ 0x2C :: more) (p :: properties)

inductive SpellsProperty : List Byte → CString × JsonValue → Prop
  | mk {body key before space between text after : List Byte} {value : JsonValue}
      (hbefore : IsSpace before) (hkey : Decodes body key) (hroom : key.length ≤ MAX_TOKEN)
      (hspace : IsSpace space) (hbetween : IsSpace between) (h : Spells text value)
      (hafter : IsSpace after) :
      SpellsProperty (before ++ ((0x22 :: body ++ [0x22]) ++
        (space ++ 0x3A :: (between ++ (text ++ after))))) (ofBytes key, value)

/-- What is between the brackets of an array. -/
inductive SpellsElements : List Byte → List JsonValue → Prop
  | nil {space : List Byte} (h : IsSpace space) : SpellsElements space []
  | single {before text after : List Byte} {value : JsonValue} (hbefore : IsSpace before)
      (h : Spells text value) (hafter : IsSpace after) :
      SpellsElements (before ++ (text ++ after)) [value]
  | cons {before text after more : List Byte} {value : JsonValue} {elements : List JsonValue}
      (hbefore : IsSpace before) (h : Spells text value) (hafter : IsSpace after)
      (hmore : SpellsElements more elements) :
      SpellsElements (before ++ (text ++ (after ++ 0x2C :: more))) (value :: elements)

end

/-- A text of one value, with no null byte in it. -/
structure SpellsDocument (text : List Byte) (value : JsonValue) : Prop where
  noNul : NoNul text
  spelled : ∃ before body after, text = before ++ (body ++ after) ∧ IsSpace before ∧
    IsSpace after ∧ Spells body value

/-! Numerals as they are read -/

/-- What the functions of the library find in the digits. -/
theorem digits_of_literal {s : CString} {negative : Bool} {ds : List ℕ} (hne : ds ≠ [])
    (hds : ∀ d ∈ ds, d < 10) (h : s.bytes = signedDigits negative ds) :
    splitSign (s.bytes.dropWhile fun b => isspace b.toInt) = (negative, ds.map digitChar) ∧
      (((ds.map digitChar).takeWhile fun b => isdigit b.toInt).map fun b => b.toNat - 0x30) = ds := by
  obtain ⟨d, ds', rfl⟩ := List.exists_cons_of_ne_nil hne
  have hd := hds d List.mem_cons_self
  have hspace : (s.bytes.dropWhile fun b => isspace b.toInt) = s.bytes := by
    rw [h]
    cases negative with
    | true => rfl
    | false =>
      show (digitChar d :: ds'.map digitChar).dropWhile _ = digitChar d :: ds'.map digitChar
      rw [List.dropWhile_cons_of_neg]
      rw [not_isspace_digitChar hd]
      exact Bool.false_ne_true
  have hsign : splitSign s.bytes = (negative, (d :: ds').map digitChar) := by
    rw [h]
    unfold splitSign
    cases negative with
    | true => rfl
    | false =>
      have hminus : some (digitChar d) ≠ some 0x2D := by
        rw [ne_eq, Option.some_inj]
        exact digitChar_ne hd (by decide)
      have hplus : some (digitChar d) ≠ some 0x2B := by
        rw [ne_eq, Option.some_inj]
        exact digitChar_ne hd (by decide)
      exact (if_neg hminus).trans (if_neg hplus)
  have hall : ∀ b ∈ (d :: ds').map digitChar, isdigit b.toInt = true := by
    intro b hb
    obtain ⟨e, he, rfl⟩ := List.mem_map.mp hb
    exact isdigit_digitChar (hds e he)
  have hvalues : (((d :: ds').map digitChar).map fun b => b.toNat - 0x30) = d :: ds' := by
    rw [List.map_map]
    conv_rhs => rw [← List.map_id (d :: ds')]
    apply List.map_congr_left
    intro e he
    have hnat := toNat_digitChar (hds e he)
    show (digitChar e).toNat - 0x30 = e
    omega
  rw [hspace, List.takeWhile_eq_self_iff.mpr hall, hvalues]
  exact ⟨hsign, rfl⟩

/-- The digits are read, whatever number they stand for. -/
theorem atoi_numeral {s : CString} {negative : Bool} {ds : List ℕ} (hne : ds ≠ [])
    (hds : ∀ d ∈ ds, d < 10) (h : s.bytes = signedDigits negative ds) :
    atoi s = if -2 ^ 31 ≤ numeralValue negative (Decimal.value ds) ∧
        numeralValue negative (Decimal.value ds) < 2 ^ 31 then
      .ok (BitVec.ofInt 32 (numeralValue negative (Decimal.value ds)))
    else .error .undefinedBehaviour := by
  obtain ⟨hsign, hdigits⟩ := digits_of_literal hne hds h
  unfold atoi
  dsimp only
  rw [hsign]
  dsimp only
  rw [hdigits]
  rfl

/-- As much of a numeral as fits in a token is an `int` if the numeral is one. -/
theorem atoi_take_numeral {s : CString} {negative : Bool} {n k : ℕ} (hk : 11 ≤ k)
    (h : s.bytes = (if negative then [0x2D] else []) ++ ((Decimal.digits n).take k).map digitChar) :
    atoi s = if -2 ^ 31 ≤ numeralValue negative n ∧ numeralValue negative n < 2 ^ 31 then
      .ok (BitVec.ofInt 32 (numeralValue negative n))
    else .error .undefinedBehaviour := by
  have hne : (Decimal.digits n).take k ≠ [] := by
    rw [ne_eq, List.take_eq_nil_iff]
    exact not_or.mpr ⟨by omega, Decimal.digits_ne_nil n⟩
  have hread := atoi_numeral hne (fun d hd => Decimal.digits_lt (List.mem_of_mem_take hd)) h
  rcases Nat.lt_or_ge k (Decimal.digits n).length with hlong | hshort
  · obtain ⟨hle, hn⟩ := Decimal.le_value_take (by omega) hlong
    have hlarge : 10 ^ 10 ≤ Decimal.value ((Decimal.digits n).take k) :=
      (Nat.pow_le_pow_right (by decide) (by omega)).trans hle
    rw [hread]
    unfold numeralValue
    cases negative with
    | true => rw [if_neg, if_neg] <;> simp only [if_true] <;> omega
    | false => rw [if_neg, if_neg] <;> simp only [Bool.false_eq_true, if_false] <;> omega
  · rw [hread, List.take_of_length_le hshort, Decimal.value_digits]

end ZoweCommon
