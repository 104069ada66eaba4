import ZoweCommon.Yaml.ReaderCorrect

/-! Which integers keep their value on the way from YAML to JSON. -/
namespace ZoweCommon

open CLibrary CString YamlTree JsonBuilder

/-- Once the digits stand for more than fits, so does what they are a part of. -/
theorem readInt_fold_overflow {data : List Byte} (hdecimal : data.all isDecimal = true) :
    ∀ {acc : ℕ}, acc < 2 ^ 63 → 2 ^ 63 ≤ acc * 10 ^ data.length + YamlTree.numeral data →
    data.foldlM (fun (val64 : ℤ) c =>
      if isDecimal c then
        let next := 10 * val64 + (c.toNat - 0x30)
        if next < 2 ^ 63 then (return next : Exec ℤ) else throw .undefinedBehaviour
      else return val64) acc = .error .undefinedBehaviour := by
  induction data with
  | nil =>
    intro acc hacc hle
    rw [List.length_nil, pow_zero, Nat.mul_one] at hle
    change 2 ^ 63 ≤ acc + 0 at hle
    omega
  | cons c data ih =>
    intro acc _ hle
    rw [List.all_cons, Bool.and_eq_true] at hdecimal
    obtain ⟨hc, hdata⟩ := hdecimal
    have hdigit : 0x30 ≤ c.toNat := by
      rw [isDecimal, Bool.and_eq_true, decide_eq_true_eq] at hc
      exact hc.1
    have hnext : (10 * (acc : ℤ) + (c.toNat - 0x30)) = (10 * acc + (c.toNat - 0x30) : ℕ) := by
      push_cast [hdigit]
      rfl
    have hvalue : (10 * acc + (c.toNat - 0x30)) * 10 ^ data.length + YamlTree.numeral data =
        acc * 10 ^ (c :: data).length + YamlTree.numeral (c :: data) := by
      rw [numeral_cons, List.length_cons]
      ring
    rw [List.foldlM_cons, if_pos hc, hnext]
    dsimp only
    by_cases hlt : 10 * acc + (c.toNat - 0x30) < 2 ^ 63
    · rw [if_pos (by exact_mod_cast hlt)]
      exact ih hdata hlt (by rwa [hvalue])
    · rw [if_neg (by exact_mod_cast hlt)]
      rfl

theorem readInt_overflow {data : List Byte} (hdecimal : data.all isDecimal = true)
    (hle : 2 ^ 63 ≤ YamlTree.numeral data) : readInt data = .error .undefinedBehaviour := by
  have hfold := @readInt_fold_overflow data hdecimal 0 (by decide)
    (by rwa [Nat.zero_mul, Nat.zero_add])
  rw [readInt, ← Int.natCast_zero, hfold]
  rfl

theorem numeral_append (a b : List Byte) :
    YamlTree.numeral (a ++ b) = YamlTree.numeral a * 10 ^ b.length + YamlTree.numeral b := by
  rw [YamlTree.numeral, List.map_append, Decimal.value_append, List.length_map]
  rfl

/-- A text that is cut off keeps its value only if there is none. -/
theorem numeral_take_eq_iff (value : List Byte) :
    YamlTree.numeral (value.take MAX_JSON_STRING) = YamlTree.numeral value ↔
      value.length ≤ MAX_JSON_STRING ∨ YamlTree.numeral value = 0 := by
  by_cases hlength : value.length ≤ MAX_JSON_STRING
  · rw [List.take_of_length_le hlength]
    exact iff_of_true rfl (.inl hlength)
  · have happend := numeral_append (value.take MAX_JSON_STRING) (value.drop MAX_JSON_STRING)
    rw [List.take_append_drop, List.length_drop] at happend
    have hpow : 10 ^ 1 ≤ 10 ^ (value.length - MAX_JSON_STRING) :=
      Nat.pow_le_pow_right (by omega) (by omega)
    have hmul := Nat.mul_le_mul_left (YamlTree.numeral (value.take MAX_JSON_STRING)) hpow
    rw [or_iff_right hlength]
    omega

/-- The scalar has become an integer of its value if there is one of 64 bits, and has become no
integer of another value. -/
def KeepsInteger (run : Exec (Option ℕ × JsonBuilder)) (n : ℕ) : Prop :=
  ∃ json b', run = .ok (json, b') ∧
    (n < 2 ^ 63 → ∃ p x, json = some p ∧ b'.heap[p]? = some (.scalar (.int64 x)) ∧ x.toInt = n) ∧
    ∀ p s z, json = some p → b'.heap[p]? = some (.scalar s) →
      (Json.scalar s).integer? = some z → z = n

/-- What the value is for a tag that leaves the scalar an integer: it fits, and none of its
digits are cut off, unless all of them are zeros. With another tag there is no integer to expect
only where none fits. -/
def IntegerFits (tag : CString) (value : List Byte) : Prop :=
  if tag = YAML_STR_TAG ∨ tag = YAML_INT_TAG then
    YamlTree.numeral value < 2 ^ 63 ∧
      (value.length ≤ MAX_JSON_STRING ∨ YamlTree.numeral value = 0)
  else 2 ^ 63 ≤ YamlTree.numeral value

instance (tag : CString) (value : List Byte) : Decidable (IntegerFits tag value) :=
  inferInstanceAs (Decidable (if tag = YAML_STR_TAG ∨ tag = YAML_INT_TAG then
    YamlTree.numeral value < 2 ^ 63 ∧
      (value.length ≤ MAX_JSON_STRING ∨ YamlTree.numeral value = 0)
    else 2 ^ 63 ≤ YamlTree.numeral value))

section Scalar

variable {tag : CString} {value : List Byte}

theorem isSyntacticallyInteger_take (hne : value ≠ []) (hdecimal : value.all isDecimal = true) :
    isSyntacticallyInteger (value.take MAX_JSON_STRING) = true := by
  have hlength := List.length_pos_of_ne_nil hne
  rw [isSyntacticallyInteger, if_neg, List.all_eq_true]
  · exact fun c hc => List.all_eq_true.mp hdecimal c (List.mem_of_mem_take hc)
  · rw [List.length_take, MAX_JSON_STRING]
    omega

theorem scalarPart_integer (htag : tag = YAML_STR_TAG ∨ tag = YAML_INT_TAG)
    (hinteger : isSyntacticallyInteger (value.take MAX_JSON_STRING) = true) :
    scalarPart tag value .YAML_PLAIN_SCALAR_STYLE = (do
      let read ← readInt (value.take MAX_JSON_STRING)
      return if read.2 then some (.scalar (.int64 read.1)) else none) := by
  have hnull : ¬ (tag = YAML_NULL_TAG ∨ (tag = YAML_STR_TAG ∧
      YamlScalarStyle.YAML_PLAIN_SCALAR_STYLE = .YAML_PLAIN_SCALAR_STYLE) ∧
      isSyntacticallyNull (value.take MAX_JSON_STRING) = true) := by
    rw [isSyntacticallyNull_of_integer hinteger]
    rintro (rfl | ⟨-, h⟩)
    · exact absurd htag (by decide)
    · exact Bool.false_ne_true h
  rw [scalarPart]
  dsimp only
  rw [if_neg hnull, if_pos (htag.symm.imp id fun h => ⟨⟨h, rfl⟩, hinteger⟩)]

theorem scalarPart_not_integer (htag : ¬ (tag = YAML_STR_TAG ∨ tag = YAML_INT_TAG))
    (hdecimal : value.all isDecimal = true) (hne : value ≠ []) :
    scalarPart tag value .YAML_PLAIN_SCALAR_STYLE = .ok none ∨
      scalarPart tag value .YAML_PLAIN_SCALAR_STYLE = .ok (some (.scalar .null)) := by
  obtain ⟨hstr, hint⟩ := not_or.mp htag
  have hinteger := isSyntacticallyInteger_take hne hdecimal
  have hword : ∀ word : List Byte, word.all isDecimal = false →
      value.take MAX_JSON_STRING ≠ word := by
    rintro word hfalse rfl
    rw [isSyntacticallyInteger_all hinteger] at hfalse
    exact Bool.false_ne_true hfalse.symm
  have hbool : (readBool (value.take MAX_JSON_STRING)).2 = false := by
    rw [readBool, isTrue, isFalse, decide_eq_false (hword _ (by decide)),
      decide_eq_false (hword _ (by decide)), decide_eq_false (hword _ (by decide)),
      decide_eq_false (hword _ (by decide)), decide_eq_false (hword _ (by decide)),
      decide_eq_false (hword _ (by decide))]
    rfl
  rw [scalarPart]
  dsimp only
  rw [hbool]
  by_cases hnull : tag = YAML_NULL_TAG
  · rw [if_pos (.inl hnull)]
    exact .inr rfl
  · rw [if_neg (not_or.mpr ⟨hnull, fun h => hstr h.1.1⟩),
      if_neg (not_or.mpr ⟨hint, fun h => hstr h.1.1⟩)]
    refine .inl ?_
    by_cases hboolTag : tag = YAML_BOOL_TAG
    · rw [if_pos (.inl hboolTag)]
      rfl
    · rw [if_neg (not_or.mpr ⟨hboolTag, fun h => hstr h.1.1⟩), if_neg hstr]
      rfl

section Run

variable {b : JsonBuilder} {parent : Option ℕ} {parentKey : Option CString} {n : ℕ}
  {run : Exec (Option ℕ × JsonBuilder)}

theorem not_keepsInteger_error {fault : Fault} (h : run = .error fault) : ¬ KeepsInteger run n := by
  rintro ⟨json, b', hrun, -⟩
  rw [h] at hrun
  cases hrun

theorem keepsInteger_none_iff (h : run = .ok (none, b)) : KeepsInteger run n ↔ 2 ^ 63 ≤ n := by
  constructor
  · rintro ⟨json, b', hrun, hfits, -⟩
    rw [h] at hrun
    cases hrun
    by_contra hlt
    obtain ⟨p, x, hp, -⟩ := hfits (by omega)
    cases hp
  · intro hle
    exact ⟨none, b, h, fun hlt => absurd hlt (by omega), fun p s z hp => (by cases hp)⟩

/-- The value that was built decides. -/
theorem keepsInteger_scalar_iff {s : JsonScalar}
    (h : BuildsPart b parent parentKey false run (.ok (some (.scalar s)))) :
    KeepsInteger run n ↔ (n < 2 ^ 63 → ∃ x, s = .int64 x ∧ x.toInt = n) ∧
      ∀ z, (Json.scalar s).integer? = some z → z = n := by
  obtain ⟨b', hrun, hbuilt⟩ := h
  have hnode : b'.heap[b.heap.length]? = some (.scalar s) := hbuilt.rep
  constructor
  · rintro ⟨json, b₁, hrun₁, hfits, hvalue⟩
    rw [hrun] at hrun₁
    cases hrun₁
    refine ⟨fun hlt => ?_, fun z hz => hvalue _ s z rfl hnode hz⟩
    obtain ⟨p, x, hp, hx, htoInt⟩ := hfits hlt
    cases hp
    rw [hnode] at hx
    cases hx
    exact ⟨x, rfl, htoInt⟩
  · rintro ⟨hfits, hvalue⟩
    refine ⟨_, b', hrun, fun hlt => ?_, fun p s' z hp hs' hz => ?_⟩
    · obtain ⟨x, rfl, htoInt⟩ := hfits hlt
      exact ⟨_, x, rfl, hnode, htoInt⟩
    · cases hp
      rw [hnode] at hs'
      cases hs'
      exact hvalue z hz

theorem keepsInteger_integer_iff {x : BitVec 64}
    (h : BuildsPart b parent parentKey false run (.ok (some (.scalar (.int64 x))))) :
    KeepsInteger run n ↔ x.toInt = n := by
  rw [keepsInteger_scalar_iff h]
  constructor
  · rintro ⟨-, hvalue⟩
    exact hvalue _ rfl
  · intro htoInt
    refine ⟨fun _ => ⟨x, rfl, htoInt⟩, fun z hz => ?_⟩
    rw [← htoInt]
    exact (Option.some.inj hz).symm

theorem keepsInteger_null_iff
    (h : BuildsPart b parent parentKey false run (.ok (some (.scalar .null)))) :
    KeepsInteger run n ↔ 2 ^ 63 ≤ n := by
  rw [keepsInteger_scalar_iff h]
  constructor
  · rintro ⟨hfits, -⟩
    by_contra hlt
    obtain ⟨x, hx, -⟩ := hfits (by omega)
    cases hx
  · intro hle
    exact ⟨fun hlt => absurd hlt (by omega), fun z hz => (by cases hz)⟩

end Run

theorem not_isTemplate_integer
    (hinteger : isSyntacticallyInteger (value.take MAX_JSON_STRING) = true) :
    isTemplate tag value .YAML_PLAIN_SCALAR_STYLE = false := by
  by_cases hstr : tag = YAML_STR_TAG
  · exact not_isTemplate YAML_INT_TAG (by decide) isSyntacticallyInteger_dollar
      (.inr ⟨⟨hstr, rfl⟩, hinteger⟩)
  · rw [isTemplate, decide_eq_false hstr, Bool.false_and, Bool.false_and]

/-- A plain scalar of digits, wherever in a document it stands, keeps its value exactly when it
fits. -/
theorem yaml2JSON1_keepsInteger_iff (doc : YamlDocument) (fuel : ℕ) {b : JsonBuilder}
    {parent : Option ℕ} {parentKey : Option CString} (h : Slot b parent parentKey)
    (tag : CString) {value : List Byte} (hne : value ≠ [])
    (hdecimal : value.all isDecimal = true) :
    KeepsInteger (yaml2JSON1 doc (fuel + 1) b parent parentKey
      (.scalar tag value .YAML_PLAIN_SCALAR_STYLE)) (YamlTree.numeral value) ↔
      IntegerFits tag value := by
  have hinteger := isSyntacticallyInteger_take hne hdecimal
  have hbuilds := h.scalar2JSON tag value .YAML_PLAIN_SCALAR_STYLE
  rw [not_isTemplate_integer hinteger] at hbuilds
  change KeepsInteger (do
    let r ← scalar2JSON b parent parentKey tag value .YAML_PLAIN_SCALAR_STYLE
    return (r.1, r.2.2)) _ ↔ _
  rw [IntegerFits]
  by_cases htag : tag = YAML_STR_TAG ∨ tag = YAML_INT_TAG
  · rw [if_pos htag]
    rw [scalarPart_integer htag hinteger] at hbuilds
    have htake := numeral_take_eq_iff value
    by_cases hlt : YamlTree.numeral (value.take MAX_JSON_STRING) < 2 ^ 63
    · rw [readInt_ok (isSyntacticallyInteger_all hinteger) hlt, Exec.ok_bind] at hbuilds
      have htoInt : (BitVec.ofNat 64 (YamlTree.numeral (value.take MAX_JSON_STRING))).toInt =
          YamlTree.numeral (value.take MAX_JSON_STRING) := by
        rw [BitVec.toInt_eq_toNat_cond, BitVec.toNat_ofNat]
        omega
      rw [keepsInteger_integer_iff hbuilds, htoInt, ← htake]
      omega
    · rw [readInt_overflow (isSyntacticallyInteger_all hinteger) (by omega)] at hbuilds
      refine iff_of_false (not_keepsInteger_error hbuilds) fun hfits => ?_
      rw [htake.mpr hfits.2] at hlt
      exact hlt hfits.1
  · rw [if_neg htag]
    rcases scalarPart_not_integer htag hdecimal hne with hpart | hpart
    · rw [hpart] at hbuilds
      exact keepsInteger_none_iff hbuilds
    · rw [hpart] at hbuilds
      exact keepsInteger_null_iff hbuilds

end Scalar

/-- The document `7`. -/
theorem yaml2JSON1_keepsInteger_iff_small :
    KeepsInteger (yaml2JSON1 ⟨[]⟩ 1 ⟨[], none⟩ none none
      (.scalar YAML_STR_TAG (ascii "7") .YAML_PLAIN_SCALAR_STYLE)) 7 :=
  (yaml2JSON1_keepsInteger_iff ⟨[]⟩ 0 .root YAML_STR_TAG (by decide) (by decide)).mpr
    (by decide)

/-- The document `9223372036854775808`, which is one more than fits. -/
theorem not_yaml2JSON1_keepsInteger :
    ¬ ∀ doc fuel b parent parentKey value, Slot b parent parentKey → value ≠ [] →
      value.all isDecimal = true →
      KeepsInteger (yaml2JSON1 doc (fuel + 1) b parent parentKey
        (.scalar YAML_STR_TAG value .YAML_PLAIN_SCALAR_STYLE)) (YamlTree.numeral value) := by
  intro h
  have hrun : yaml2JSON1 ⟨[]⟩ 1 ⟨[], none⟩ none none (.scalar YAML_STR_TAG
      (ascii "9223372036854775808") .YAML_PLAIN_SCALAR_STYLE) = .error .undefinedBehaviour := rfl
  exact not_keepsInteger_error hrun (h ⟨[]⟩ 0 ⟨[], none⟩ none none (ascii "9223372036854775808")
    .root (by decide) (by decide))

end ZoweCommon
