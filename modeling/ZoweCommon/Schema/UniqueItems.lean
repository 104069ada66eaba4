import Mathlib.Algebra.Group.Nat.Defs
import ZoweCommon.Json.Equality
import ZoweCommon.Schema.PropertyCounts

/-! Which arrays `uniqueItems` reports. -/
namespace ZoweCommon
namespace JsonSchema

open CLibrary CString

variable {platform : Platform} {validate : Validate} {valueSpec : JSValueSpec} {st : ValidatorState}

/-! The key of a scalar: its type, and 56 bits of its value -/

def typeTag : JsonScalar → ℕ
  | .number _ => 0
  | .string _ => 1
  | .boolean _ => 2
  | .null => 3
  | .int64 _ => 6
  | .double _ => 7

def hashedBits : JsonScalar → Exec (BitVec 64)
  | .number n => return n.signExtend 64
  | .int64 n => return n
  | .double bits => do return BitVec.ofInt 64 (← doubleToInt64 bits)
  | .string s => return hashString s
  | .boolean b => return if b then 1 else 0
  | .null => return 0

theorem jsonLongHash_scalar (place : List ℕ) (s : JsonScalar) :
    jsonLongHash platform ⟨place, .scalar s⟩ = (do
      let x ← hashedBits s
      return BitVec.ofNat 64 (typeTag s) <<< 56 ||| (hashMask &&& x)) := by
  cases s with
  | number n => simp [jsonLongHash, hashedBits, typeTag]
  | string s => rfl
  | boolean b =>
    cases b with
    | true => rfl
    | false => rfl
  | null => rfl
  | int64 n => rfl
  | double bits =>
    simp only [jsonLongHash, hashedBits, typeTag]
    cases doubleToInt64 bits with
    | error fault => rfl
    | ok z => rfl

theorem tableKey_tagged {tag : ℕ} (htag : tag < 128) (x : BitVec 64) :
    (tableKey (BitVec.ofNat 64 tag <<< 56 ||| (hashMask &&& x))).toNat =
      tag * 2 ^ 56 + x.toNat % 2 ^ 56 := by
  have hmask : (hashMask &&& x).toNat = x.toNat % 2 ^ 56 := by
    rw [BitVec.toNat_and, Nat.and_comm]
    exact Nat.and_two_pow_sub_one_eq_mod x.toNat 56
  have hlt : x.toNat % 2 ^ 56 < 2 ^ 56 := Nat.mod_lt _ (by decide)
  have hshift : (BitVec.ofNat 64 tag <<< 56).toNat = tag <<< 56 := by
    have htag' : tag % 2 ^ 64 = tag := Nat.mod_eq_of_lt (by omega)
    rw [BitVec.toNat_shiftLeft, BitVec.toNat_ofNat, htag', Nat.shiftLeft_eq]
    exact Nat.mod_eq_of_lt (by omega)
  have hor : (BitVec.ofNat 64 tag <<< 56 ||| (hashMask &&& x)).toNat =
      tag * 2 ^ 56 + x.toNat % 2 ^ 56 := by
    rw [BitVec.toNat_or, hshift, hmask, ← Nat.shiftLeft_add_eq_or_of_lt hlt, Nat.shiftLeft_eq]
  have hkey : (BitVec.ofNat 64 tag <<< 56 ||| (hashMask &&& x)).toNat < 2 ^ 63 := by
    rw [hor]
    omega
  unfold tableKey
  rw [BitVec.toNat_and]
  exact (Nat.and_two_pow_sub_one_eq_mod _ 63).trans ((Nat.mod_eq_of_lt hkey).trans hor)

/-- Two values that are looked up in the table as the same. -/
def SameKey (platform : Platform) (a b : Value) : Prop :=
  ∃ g h, jsonLongHash platform a = .ok g ∧ jsonLongHash platform b = .ok h ∧ tableKey g = tableKey h

def low56 (x : BitVec 64) : ℕ := x.toNat % 2 ^ 56

theorem sameKey_scalar_iff {place place' : List ℕ} {s t : JsonScalar} :
    SameKey platform ⟨place, .scalar s⟩ ⟨place', .scalar t⟩ ↔
      typeTag s = typeTag t ∧
        ∃ x y, hashedBits s = .ok x ∧ hashedBits t = .ok y ∧ low56 x = low56 y := by
  have htag (s : JsonScalar) : typeTag s < 128 := by
    unfold typeTag
    split
    all_goals decide
  unfold SameKey
  rw [jsonLongHash_scalar, jsonLongHash_scalar]
  cases hashedBits s with
  | error fault => simp
  | ok x =>
    cases hashedBits t with
    | error fault => simp
    | ok y =>
      have hkey : tableKey (BitVec.ofNat 64 (typeTag s) <<< 56 ||| (hashMask &&& x)) =
          tableKey (BitVec.ofNat 64 (typeTag t) <<< 56 ||| (hashMask &&& y)) ↔
          typeTag s = typeTag t ∧ low56 x = low56 y := by
        rw [← BitVec.toNat_inj, tableKey_tagged (htag s), tableKey_tagged (htag t), low56, low56]
        omega
      simpa using hkey

/-- Two scalars of one type that are not equal, but agree in the bits that are hashed. -/
def ScalarsCollide : JsonScalar → JsonScalar → Prop
  | .int64 m, .int64 n => m ≠ n ∧ low56 m = low56 n
  | .double x, .double y => Binary64.eq x y = false ∧ ∃ a b, doubleToInt64 x = .ok a ∧
    doubleToInt64 y = .ok b ∧ low56 (BitVec.ofInt 64 a) = low56 (BitVec.ofInt 64 b)
  | .string s, .string t => s ≠ t ∧ low56 (hashString s) = low56 (hashString t)
  | _, _ => False

theorem low56_signExtend {m n : BitVec 32}
    (h : low56 (m.signExtend 64) = low56 (n.signExtend 64)) : m = n := by
  have hlow (k : BitVec 32) : low56 (k.signExtend 64) % 2 ^ 32 = k.toNat := by
    have hlt := k.isLt
    have hwidth : (k.setWidth 64).toNat = k.toNat := by
      rw [BitVec.toNat_setWidth]
      omega
    rw [low56, BitVec.toNat_signExtend, hwidth]
    split
    · omega
    · omega
  apply BitVec.eq_of_toNat_eq
  rw [← hlow m, h, hlow]

/-- Equal doubles have the same integer part. -/
theorem doubleToInt64_eq {x y : BitVec 64} (h : Binary64.eq x y = true) {a : ℤ}
    (ha : doubleToInt64 x = .ok a) {b : ℤ} (hb : doubleToInt64 y = .ok b) : a = b := by
  have hunits : Binary64.units x = Binary64.units y := by
    unfold Binary64.eq at h
    rw [Bool.and_eq_true, decide_eq_true_iff] at h
    exact h.2
  have htruncate {bits : BitVec 64} {z : ℤ} (hz : doubleToInt64 bits = .ok z) :
      z = (Binary64.units bits).tdiv Binary64.one := by
    have hsome := truncate_of_doubleToInt64 hz
    unfold Binary64.truncate at hsome
    split at hsome
    · exact (Option.some_inj.mp hsome).symm
    · cases hsome
  rw [htruncate ha, htruncate hb, hunits]

theorem ScalarsCollide.typeTag_eq {s t : JsonScalar} (h : ScalarsCollide s t) :
    typeTag s = typeTag t := by
  unfold ScalarsCollide at h
  split at h
  · rfl
  · rfl
  · rfl
  · exact h.elim

/-- Scalars have the same key if they are equal, and otherwise only if they collide. -/
theorem sameKey_scalar {place place' : List ℕ} {s t : JsonScalar}
    (hs : ∃ x, hashedBits s = .ok x) (ht : ∃ y, hashedBits t = .ok y) :
    SameKey platform ⟨place, .scalar s⟩ ⟨place', .scalar t⟩ ↔
      Json.Same (.scalar s) (.scalar t) ∨ ScalarsCollide s t := by
  rw [sameKey_scalar_iff, Json.same_scalar_iff]
  by_cases htag : typeTag s = typeTag t
  · obtain ⟨x, hx⟩ := hs
    obtain ⟨y, hy⟩ := ht
    have hbits : (∃ x y, hashedBits s = .ok x ∧ hashedBits t = .ok y ∧ low56 x = low56 y) ↔
        low56 x = low56 y := by
      rw [hx, hy]
      simp
    rw [hbits]
    cases s with
    | number m =>
      cases t with
      | number n =>
        cases hx
        cases hy
        constructor
        · exact fun h => .inl (.inl (congrArg _ (low56_signExtend h.2)))
        · rintro ((h | ⟨x, y, h, -⟩) | h)
          · cases h
            exact ⟨rfl, rfl⟩
          · cases h
          · exact h.elim
      | string t | boolean c | null | int64 n | double bits => cases htag
    | null =>
      cases t with
      | null =>
        cases hx
        cases hy
        exact iff_of_true ⟨rfl, rfl⟩ (.inl (.inl rfl))
      | number n | string t | boolean c | int64 n | double bits => cases htag
    | boolean b =>
      cases t with
      | boolean c =>
        by_cases heq : b = c
        · subst heq
          cases hx.symm.trans hy
          exact iff_of_true ⟨rfl, rfl⟩ (.inl (.inl rfl))
        · have hne : low56 x ≠ low56 y := by
            cases hx
            cases hy
            cases b with
            | true =>
              cases c with
              | true => exact absurd rfl heq
              | false => decide
            | false =>
              cases c with
              | true => decide
              | false => exact absurd rfl heq
          simp [ScalarsCollide, heq, hne]
      | number n | string t | null | int64 n | double bits => cases htag
    | string s =>
      cases t with
      | string t =>
        cases hx
        cases hy
        by_cases heq : s = t
        · subst heq
          exact iff_of_true ⟨rfl, rfl⟩ (.inl (.inl rfl))
        · simp [ScalarsCollide, heq, typeTag]
      | number n | boolean c | null | int64 n | double bits => cases htag
    | int64 m =>
      cases t with
      | int64 n =>
        obtain rfl : m = x := Except.ok.inj hx
        obtain rfl : n = y := Except.ok.inj hy
        by_cases heq : m = n
        · subst heq
          exact iff_of_true ⟨rfl, rfl⟩ (.inl (.inl rfl))
        · simp [ScalarsCollide, heq, typeTag]
      | number n | string t | boolean c | null | double bits => cases htag
    | double bits =>
      cases t with
      | double bits' =>
        obtain ⟨a, ha, hax⟩ := Exec.bind_eq_ok.mp hx
        obtain ⟨b, hb, hby⟩ := Exec.bind_eq_ok.mp hy
        cases hax
        cases hby
        cases heq : Binary64.eq bits bits' with
        | true =>
          have hab := doubleToInt64_eq heq ha hb
          exact iff_of_true ⟨rfl, congrArg _ (congrArg _ hab)⟩ (.inl (.inr ⟨_, _, rfl, rfl, heq⟩))
        | false =>
          by_cases hsame : bits = bits'
          · subst hsame
            cases ha.symm.trans hb
            exact iff_of_true ⟨rfl, rfl⟩ (.inl (.inl rfl))
          · simp [ScalarsCollide, heq, hsame, ha, hb, typeTag]
      | number n | string t | boolean c | null | int64 n => cases htag
  · refine iff_of_false (fun h => htag h.1) ?_
    rintro ((rfl | ⟨x, y, rfl, rfl, -⟩) | hcollide)
    · exact htag rfl
    · exact htag rfl
    · exact htag hcollide.typeTag_eq

/-! The items of an array -/

/-- An item after it was validated: the exceptions of that, and the state it is looked up in. -/
structure CheckedItem where
  value : Value
  invalid : List ValidityException
  st : ValidatorState

/-- What `validateItems` does apart from looking up the items. -/
def checkItems (validate : Validate) (valueSpec : JSValueSpec) (array : List ℕ) :
    ℕ → List Json → ValidatorState → Exec (List CheckedItem × ValidatorState)
  | _, [], st => return ([], st)
  | i, item :: items, st => do
    let itemValue : Value := ⟨array ++ [i], item⟩
    let st := st.push (.index i)
    let (invalid, st) ←
      match valueSpec.itemSpec with
      | some itemSpec => do
        let (elementResult, st) ← validate st itemValue itemSpec
        if vStatusValid elementResult.status then pure ([], st)
        else pure (elementResult.exception.toList, st)
      | none => pure ([], st)
    let (checked, st') ← checkItems validate valueSpec array (i + 1) items st.pop
    return (⟨itemValue, invalid, st⟩ :: checked, st')

def lookUpItems (platform : Platform) (valueSpec : JSValueSpec) :
    List (BitVec 64) → List CheckedItem → Exec (List (List ValidityException))
  | _, [] => return []
  | uniquenessSet, item :: items => do
    let (duplicate, uniquenessSet) ←
      checkUnique platform valueSpec item.st uniquenessSet item.value
    return duplicate :: (← lookUpItems platform valueSpec uniquenessSet items)

def itemExceptions (checked : List CheckedItem) (reported : List (List ValidityException)) :
    List ValidityException :=
  (List.zipWith (fun item duplicate => item.invalid ++ duplicate) checked reported).flatten

theorem validateItems_eq_ok {array : List ℕ} {elements : List Json} {i : ℕ}
    {uniquenessSet : List (BitVec 64)} {checked : List CheckedItem}
    {reported : List (List ValidityException)} {st' : ValidatorState}
    (hchecked : checkItems validate valueSpec array i elements st = .ok (checked, st'))
    (hreported : lookUpItems platform valueSpec uniquenessSet checked = .ok reported) :
    validateItems platform validate valueSpec array i elements uniquenessSet st =
      .ok (itemExceptions checked reported, st') := by
  induction elements generalizing i uniquenessSet st checked reported with
  | nil =>
    cases hchecked
    cases hreported
    rfl
  | cons item items ih =>
    have hmore {invalid : List ValidityException} {st₁ : ValidatorState}
        (h : (do
          let (checked, st') ← checkItems validate valueSpec array (i + 1) items st₁.pop
          return (⟨⟨array ++ [i], item⟩, invalid, st₁⟩ :: checked, st') :
            Exec (List CheckedItem × ValidatorState)) = .ok (checked, st')) :
        (do
          let (duplicate, uniquenessSet) ←
            checkUnique platform valueSpec st₁ uniquenessSet ⟨array ++ [i], item⟩
          let (more, st) ← validateItems platform validate valueSpec array (i + 1) items
            uniquenessSet st₁.pop
          return (invalid ++ duplicate ++ more, st) :
            Exec (List ValidityException × ValidatorState)) =
            .ok (itemExceptions checked reported, st') := by
      obtain ⟨⟨checked', st''⟩, hrest, heq⟩ := Exec.bind_eq_ok.mp h
      cases heq
      obtain ⟨⟨duplicate, uniquenessSet'⟩, hunique, hreported⟩ := Exec.bind_eq_ok.mp hreported
      obtain ⟨reported', hlookUp, heq⟩ := Exec.bind_eq_ok.mp hreported
      cases heq
      dsimp only at hunique hlookUp
      rw [hunique, Exec.ok_bind]
      dsimp only
      rw [ih hrest hlookUp]
      rfl
    rw [checkItems] at hchecked
    rw [validateItems]
    cases hspec : valueSpec.itemSpec with
    | none =>
      rw [hspec] at hchecked
      exact hmore hchecked
    | some itemSpec =>
      rw [hspec] at hchecked
      obtain ⟨⟨elementResult, st₁⟩, hvalidate, hchecked⟩ := Exec.bind_eq_ok.mp hchecked
      dsimp only at hvalidate hchecked ⊢
      rw [hvalidate, Exec.ok_bind]
      dsimp only
      by_cases hvalid : vStatusValid elementResult.status = true
      · rw [if_pos hvalid] at hchecked ⊢
        exact hmore hchecked
      · rw [if_neg hvalid] at hchecked ⊢
        exact hmore hchecked

/-- Two of the values, at different positions. -/
def SomeTwo (values : List Value) (R : Value → Value → Prop) : Prop :=
  ∃ (i j : ℕ) (a b : Value), i < j ∧ values[i]? = some a ∧ values[j]? = some b ∧ R a b

theorem someTwo_iff {values : List Value} {R : Value → Value → Prop} :
    SomeTwo values R ↔ ¬ values.Pairwise fun a b => ¬ R a b := by
  rw [List.pairwise_iff_getElem]
  constructor
  · rintro ⟨i, j, a, b, hij, ha, hb, hab⟩ hnone
    obtain ⟨hi, rfl⟩ := List.getElem?_eq_some_iff.mp ha
    obtain ⟨hj, rfl⟩ := List.getElem?_eq_some_iff.mp hb
    exact hnone i j hi hj hij hab
  · intro h
    push Not at h
    obtain ⟨i, j, hi, hj, hij, hab⟩ := h
    exact ⟨i, j, _, _, hij, List.getElem?_eq_getElem hi, List.getElem?_eq_getElem hj, hab⟩

/-- By induction on the items: one is reported if its key is that of an item before. -/
theorem lookUpItems_eq_ok (hunique : valueSpec.uniqueItems = true) {checked : List CheckedItem}
    (hhash : ∀ item ∈ checked, ∃ h, jsonLongHash platform item.value = .ok h)
    (hpath : ∀ item ∈ checked, ∃ path, validatorAccessPath item.st.accessPath = .ok path)
    (uniquenessSet : List (BitVec 64)) :
    ∃ reported, lookUpItems platform valueSpec uniquenessSet checked = .ok reported ∧
      ((∃ duplicate ∈ reported, duplicate ≠ []) ↔
        (∃ item ∈ checked, ∃ h, jsonLongHash platform item.value = .ok h ∧
          tableKey h ∈ uniquenessSet) ∨
        ¬ checked.Pairwise fun a b => ¬ SameKey platform a.value b.value) := by
  induction checked generalizing uniquenessSet with
  | nil => exact ⟨[], rfl, by simp⟩
  | cons item items ih =>
    rw [List.forall_mem_cons] at hhash hpath
    obtain ⟨⟨h, hh⟩, hhash⟩ := hhash
    obtain ⟨⟨path, hpath'⟩, hpath⟩ := hpath
    obtain ⟨reported, hrun, hreported⟩ := ih hhash hpath (tableKey h :: uniquenessSet)
    have hcheck : ∃ duplicate, checkUnique platform valueSpec item.st uniquenessSet item.value =
        .ok (duplicate, tableKey h :: uniquenessSet) ∧
          (duplicate ≠ [] ↔ tableKey h ∈ uniquenessSet) := by
      unfold checkUnique
      rw [if_pos hunique, hh, Exec.ok_bind]
      dsimp only
      by_cases hmem : tableKey h ∈ uniquenessSet
      · rw [if_pos hmem, hpath']
        exact ⟨_, rfl, by simp [hmem]⟩
      · rw [if_neg hmem]
        exact ⟨_, rfl, by simp [hmem]⟩
    obtain ⟨duplicate, hcheck, hduplicate⟩ := hcheck
    refine ⟨duplicate :: reported, ?_, ?_⟩
    · rw [lookUpItems, hcheck, Exec.ok_bind]
      dsimp only
      rw [hrun]
      rfl
    · have hsame (b : CheckedItem) : SameKey platform item.value b.value ↔
          ∃ g, jsonLongHash platform b.value = .ok g ∧ tableKey g = tableKey h := by
        unfold SameKey
        rw [hh]
        simp [eq_comm]
      have hhead : (∃ g, jsonLongHash platform item.value = .ok g ∧ tableKey g ∈ uniquenessSet) ↔
          tableKey h ∈ uniquenessSet := by
        rw [hh]
        simp
      have htail : (∃ b ∈ items, ∃ g, jsonLongHash platform b.value = .ok g ∧
            tableKey g ∈ tableKey h :: uniquenessSet) ↔
          (∃ b ∈ items, SameKey platform item.value b.value) ∨
            ∃ b ∈ items, ∃ g, jsonLongHash platform b.value = .ok g ∧ tableKey g ∈ uniquenessSet := by
        simp only [hsame, List.mem_cons, and_or_left, exists_or]
      rw [List.exists_mem_cons_iff, List.exists_mem_cons_iff, List.pairwise_cons, hduplicate, hreported,
        hhead, htail]
      have hfirst : (∀ b ∈ items, ¬ SameKey platform item.value b.value) ↔
          ¬ ∃ b ∈ items, SameKey platform item.value b.value := by
        simp
      rw [hfirst, not_and_or, not_not]
      simp only [or_assoc, or_left_comm]

/-- The values of the elements from the i-th on, with their places. -/
def itemValues (array : List ℕ) : ℕ → List Json → List Value
  | _, [] => []
  | i, item :: items => ⟨array ++ [i], item⟩ :: itemValues array (i + 1) items

theorem checkItems_values {array : List ℕ} {elements : List Json} {i : ℕ}
    {checked : List CheckedItem} {st' : ValidatorState}
    (h : checkItems validate valueSpec array i elements st = .ok (checked, st')) :
    checked.map CheckedItem.value = itemValues array i elements := by
  induction elements generalizing i st checked with
  | nil =>
    cases h
    rfl
  | cons item items ih =>
    have hmore {invalid : List ValidityException} {st₁ : ValidatorState}
        (h : (do
          let (checked, st') ← checkItems validate valueSpec array (i + 1) items st₁.pop
          return (⟨⟨array ++ [i], item⟩, invalid, st₁⟩ :: checked, st') :
            Exec (List CheckedItem × ValidatorState)) = .ok (checked, st')) :
        checked.map CheckedItem.value = itemValues array i (item :: items) := by
      obtain ⟨⟨checked', st''⟩, hrest, heq⟩ := Exec.bind_eq_ok.mp h
      cases heq
      rw [List.map_cons, ih hrest]
      rfl
    rw [checkItems] at h
    cases hspec : valueSpec.itemSpec with
    | none =>
      rw [hspec] at h
      exact hmore h
    | some itemSpec =>
      rw [hspec] at h
      obtain ⟨⟨elementResult, st₁⟩, hvalidate, h⟩ := Exec.bind_eq_ok.mp h
      dsimp only at h
      by_cases hvalid : vStatusValid elementResult.status = true
      · rw [if_pos hvalid] at h
        exact hmore h
      · rw [if_neg hvalid] at h
        exact hmore h

/-! What is reported -/

def Reported (platform : Platform) (validate : Validate) (valueSpec : JSValueSpec) (array : List ℕ)
    (elements : List Json) (st : ValidatorState) (reported : List (List ValidityException)) : Prop :=
  ∃ checked st', checkItems validate valueSpec array 0 elements st = .ok (checked, st') ∧
    lookUpItems platform valueSpec [] checked = .ok reported ∧
    validateItems platform validate valueSpec array 0 elements [] st =
      .ok (itemExceptions checked reported, st')

def EqualScalars (a b : Value) : Prop :=
  ∃ s t, a.json = .scalar s ∧ b.json = .scalar t ∧ Json.Same a.json b.json

/-- Two values that have the same key although they are not equal scalars: scalars that agree in
what is hashed, or an object or array with an address that makes the key of the other value. -/
def Collide (platform : Platform) (a b : Value) : Prop :=
  match a.json, b.json with
  | .scalar s, .scalar t => ScalarsCollide s t
  | _, _ => SameKey platform a b

theorem sameKey_iff {a b : Value} (ha : ∃ h, jsonLongHash platform a = .ok h)
    (hb : ∃ h, jsonLongHash platform b = .ok h) :
    SameKey platform a b ↔ EqualScalars a b ∨ Collide platform a b := by
  obtain ⟨place, json⟩ := a
  obtain ⟨place', json'⟩ := b
  have hbits {place : List ℕ} {s : JsonScalar}
      (h : ∃ h, jsonLongHash platform ⟨place, .scalar s⟩ = .ok h) : ∃ x, hashedBits s = .ok x := by
    obtain ⟨h, hh⟩ := h
    rw [jsonLongHash_scalar] at hh
    obtain ⟨x, hx, -⟩ := Exec.bind_eq_ok.mp hh
    exact ⟨x, hx⟩
  cases json with
  | scalar s =>
    cases json' with
    | scalar t =>
      rw [sameKey_scalar (hbits ha) (hbits hb)]
      simp [EqualScalars, Collide]
    | object properties => simp [EqualScalars, Collide]
    | array elements => simp [EqualScalars, Collide]
  | object properties => simp [EqualScalars, Collide]
  | array elements => simp [EqualScalars, Collide]

theorem jsonLongHash_eq_ok {value : Value}
    (h : ∀ bits, value.json = .scalar (.double bits) → ∃ z, doubleToInt64 bits = .ok z) :
    ∃ hash, jsonLongHash platform value = .ok hash := by
  obtain ⟨place, json⟩ := value
  cases json with
  | object properties => exact ⟨_, rfl⟩
  | array elements => exact ⟨_, rfl⟩
  | scalar s =>
    cases s with
    | number n | string s | boolean b | null | int64 n => exact ⟨_, rfl⟩
    | double bits =>
      obtain ⟨z, hz⟩ := h bits rfl
      simp only [jsonLongHash, hz]
      exact ⟨_, rfl⟩

theorem json_mem_of_mem_itemValues {array : List ℕ} {elements : List Json} {i : ℕ} {value : Value}
    (h : value ∈ itemValues array i elements) : value.json ∈ elements := by
  induction elements generalizing i with
  | nil => cases h
  | cons item items ih =>
    rcases List.mem_cons.mp h with rfl | h
    · exact List.mem_cons_self
    · exact List.mem_cons_of_mem _ (ih h)

/-- Equal scalars are reported, and where something is reported there are equal scalars, or values
that collide. -/
theorem reported_of_equalScalars (hunique : valueSpec.uniqueItems = true) {array : List ℕ}
    {elements : List Json} {checked : List CheckedItem} {st' : ValidatorState}
    (hchecked : checkItems validate valueSpec array 0 elements st = .ok (checked, st'))
    (hpath : ∀ item ∈ checked, ∃ path, validatorAccessPath item.st.accessPath = .ok path)
    (hint64 : ∀ bits, .scalar (.double bits) ∈ elements → ∃ z, doubleToInt64 bits = .ok z) :
    ∃ reported, Reported platform validate valueSpec array elements st reported ∧
      (SomeTwo (itemValues array 0 elements) EqualScalars → ∃ d ∈ reported, d ≠ []) ∧
      ((∃ d ∈ reported, d ≠ []) → SomeTwo (itemValues array 0 elements) EqualScalars ∨
        SomeTwo (itemValues array 0 elements) (Collide platform)) := by
  have hvalues := checkItems_values hchecked
  have hhash (value : Value) (hmem : value ∈ itemValues array 0 elements) :
      ∃ h, jsonLongHash platform value = .ok h := by
    refine jsonLongHash_eq_ok fun bits hbits => hint64 bits ?_
    rw [← hbits]
    exact json_mem_of_mem_itemValues hmem
  have hhashItems (item : CheckedItem) (hitem : item ∈ checked) :
      ∃ h, jsonLongHash platform item.value = .ok h := by
    apply hhash
    rw [← hvalues]
    exact List.mem_map_of_mem hitem
  obtain ⟨reported, hrun, hreported⟩ := lookUpItems_eq_ok hunique hhashItems hpath []
  have hkeys : (∃ d ∈ reported, d ≠ []) ↔
      SomeTwo (itemValues array 0 elements) (SameKey platform) := by
    rw [hreported, someTwo_iff, ← hvalues, List.pairwise_map]
    simp
  have htwo : SomeTwo (itemValues array 0 elements) (SameKey platform) ↔
      SomeTwo (itemValues array 0 elements) EqualScalars ∨
        SomeTwo (itemValues array 0 elements) (Collide platform) := by
    constructor
    · rintro ⟨i, j, a, b, hij, ha, hb, hab⟩
      rw [sameKey_iff (hhash a (List.mem_of_getElem? ha)) (hhash b (List.mem_of_getElem? hb))] at hab
      rcases hab with hequal | hcollide
      · exact .inl ⟨i, j, a, b, hij, ha, hb, hequal⟩
      · exact .inr ⟨i, j, a, b, hij, ha, hb, hcollide⟩
    · rintro (⟨i, j, a, b, hij, ha, hb, hab⟩ | ⟨i, j, a, b, hij, ha, hb, hab⟩)
      · refine ⟨i, j, a, b, hij, ha, hb, ?_⟩
        exact (sameKey_iff (hhash a (List.mem_of_getElem? ha))
          (hhash b (List.mem_of_getElem? hb))).mpr (.inl hab)
      · refine ⟨i, j, a, b, hij, ha, hb, ?_⟩
        exact (sameKey_iff (hhash a (List.mem_of_getElem? ha))
          (hhash b (List.mem_of_getElem? hb))).mpr (.inr hab)
  refine ⟨reported, ⟨checked, st', hchecked, hrun, validateItems_eq_ok hchecked hrun⟩, ?_, ?_⟩
  · exact fun hequal => hkeys.mpr (htwo.mpr (.inl hequal))
  · exact fun hsome => htwo.mp (hkeys.mp hsome)

def uniqueOnly : JSValueSpec := { uniqueItems := true }

theorem reported_of_equalScalars_ones :
    ∃ reported, Reported noPatterns (validateJSON noPatterns ⟨[], 0, [], true⟩ 0) uniqueOnly []
        [.scalar (.int64 1), .scalar (.int64 1)] ⟨[], []⟩ reported ∧
      (SomeTwo (itemValues [] 0 [.scalar (.int64 1), .scalar (.int64 1)]) EqualScalars →
        ∃ d ∈ reported, d ≠ []) ∧
      ((∃ d ∈ reported, d ≠ []) →
        SomeTwo (itemValues [] 0 [.scalar (.int64 1), .scalar (.int64 1)]) EqualScalars ∨
          SomeTwo (itemValues [] 0 [.scalar (.int64 1), .scalar (.int64 1)]) (Collide noPatterns)) := by
  refine reported_of_equalScalars rfl rfl ?_ ?_
  · intro item hitem
    rcases List.mem_pair.mp hitem with rfl | rfl
    · exact ⟨_, rfl⟩
    · exact ⟨_, rfl⟩
  · intro bits hbits
    rcases List.mem_pair.mp hbits with h | h
    · cases h
    · cases h

/-- Two empty arrays are equal, but they are at different addresses. -/
theorem not_reported_arrays :
    Reported noPatterns (validateJSON noPatterns ⟨[], 0, [], true⟩ 0) uniqueOnly []
        [.array [], .array []] ⟨[], []⟩ [[], []] ∧
      ¬ ((∃ d ∈ [[], []], d ≠ ([] : List ValidityException)) ↔
        SomeTwo (itemValues [] 0 [.array [], .array []]) fun a b => Json.Same a.json b.json) := by
  refine ⟨⟨_, _, rfl, rfl, rfl⟩, fun hexact => ?_⟩
  have htwo : SomeTwo (itemValues [] 0 [.array [], .array []]) fun a b => Json.Same a.json b.json :=
    ⟨0, 1, _, _, Nat.zero_lt_one, rfl, rfl, .array .nil⟩
  obtain ⟨d, hd, hne⟩ := hexact.mpr htwo
  rcases List.mem_pair.mp hd with rfl | rfl
  · exact hne rfl
  · exact hne rfl

end JsonSchema
end ZoweCommon
