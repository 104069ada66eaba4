import ZoweCommon.Schema.ConstEnum

/-! The text of an enumeration that a rejected value is answered with, and its buffer. -/
namespace ZoweCommon
namespace JsonSchema

open CLibrary CString

variable {platform : Platform} {value : Value} {spec : ℕ}

/-- No member is what the value is compared with. -/
def Rejected (platform : Platform) (value : Value) (spec : ℕ) (ee : ℕ) (vs : List Json) : Prop :=
  ∀ i v, vs[i]? = some v → jsonEquals platform value v spec (ee + i) = false

theorem Rejected.head {ee : ℕ} {v : Json} {vs : List Json}
    (h : Rejected platform value spec ee (v :: vs)) :
    jsonEquals platform value v spec ee = false := h 0 v rfl

theorem Rejected.tail {ee : ℕ} {v : Json} {vs : List Json}
    (h : Rejected platform value spec ee (v :: vs)) : Rejected platform value spec (ee + 1) vs := by
  intro i w hw
  rw [Nat.add_right_comm]
  exact h (i + 1) w hw

/-- The texts are appended up to the first one that does not fit. By induction on the members. -/
theorem enumLoop_rejected {size ee : ℕ} {validValues : List Byte} {vs : List Json}
    (hrejected : Rejected platform value spec ee vs) (hroom : validValues.length < size) :
    enumLoop platform value spec size ee validValues vs =
      if (collectedValues validValues vs).length < size then
        .ok (false, collectedValues validValues vs)
      else .error .undefinedBehaviour := by
  induction vs generalizing ee validValues with
  | nil =>
    rw [collectedValues, if_pos hroom]
    rfl
  | cons v vs ih =>
    have hnot : ¬ jsonEquals platform value v spec ee = true := by
      rw [hrejected.head]
      exact Bool.false_ne_true
    have hle := length_le_collectedValues (validValues ++ enumText v ++
      if validValues ++ enumText v ≠ [] ∧ vs ≠ [] then ascii ", " else []) vs
    rw [enumLoop, if_neg hnot, collectedValues]
    dsimp only at hle ⊢
    by_cases htext : validValues.length + (enumText v).length < size
    · rw [if_pos htext, pure_bind]
      by_cases hseparator : (validValues ++ enumText v).length +
          (if validValues ++ enumText v ≠ [] ∧ vs ≠ [] then ascii ", " else []).length < size
      · rw [if_pos hseparator, pure_bind]
        exact ih hrejected.tail (by rwa [List.length_append])
      · rw [List.length_append] at hle
        rw [if_neg hseparator, if_neg (by omega)]
        rfl
    · rw [List.length_append, List.length_append] at hle
      rw [if_neg htext, if_neg (by omega)]
      rfl

def fromFirstText (vs : List Json) : List Json := vs.dropWhile fun v => enumText v = []

/-- The texts of the members, and the separators, which stand behind all but the last of them as
soon as there is a text. -/
def textLength (vs : List Json) : ℕ :=
  (vs.map fun v => (enumText v).length).sum + 2 * ((fromFirstText vs).length - 1)

/-- The text takes no more than the eleven bytes that there are for a member. -/
def TextFits (vs : List Json) : Prop := textLength vs ≤ vs.length * (8 + 3)

instance (vs : List Json) : Decidable (TextFits vs) := inferInstanceAs (Decidable (_ ≤ _))

theorem length_collectedValues_of_ne_nil {validValues : List Byte} (h : validValues ≠ [])
    (vs : List Json) : (collectedValues validValues vs).length =
      validValues.length + (vs.map fun v => (enumText v).length).sum + 2 * (vs.length - 1) := by
  induction vs generalizing validValues with
  | nil => rfl
  | cons v vs ih =>
    have hne : validValues ++ enumText v ≠ [] := List.append_ne_nil_of_left_ne_nil h _
    rw [collectedValues, ih (List.append_ne_nil_of_left_ne_nil hne _)]
    cases vs with
    | nil => simp
    | cons w vs =>
      have hseparator : (ascii ", ").length = 2 := rfl
      simp [h, hseparator]
      omega

theorem length_collectedValues (vs : List Json) :
    (collectedValues [] vs).length = textLength vs := by
  induction vs with
  | nil => rfl
  | cons v vs ih =>
    rw [collectedValues]
    by_cases htext : enumText v = []
    · simpa [htext, textLength, fromFirstText] using ih
    · have hfrom : fromFirstText (v :: vs) = v :: vs :=
        List.dropWhile_cons_of_neg (by simpa using htext)
      have hne : enumText v ++ (if vs ≠ [] then ascii ", " else []) ≠ [] :=
        List.append_ne_nil_of_left_ne_nil htext _
      unfold textLength
      rw [hfrom]
      cases vs with
      | nil => simp [collectedValues]
      | cons w vs =>
        have hseparator : (ascii ", ").length = 2 := rfl
        simp only [List.nil_append, htext, ne_eq, not_false_eq_true, reduceCtorEq, and_self,
          if_true]
        rw [length_collectedValues_of_ne_nil (by simpa using hne)]
        simp [hseparator]
        omega

theorem enumLoop_of_rejected {vs : List Json} (hrejected : Rejected platform value spec 0 vs) :
    enumLoop platform value spec (vs.length * (8 + 3) + 1) 0 [] vs =
      if TextFits vs then .ok (false, collectedValues [] vs) else .error .undefinedBehaviour := by
  rw [enumLoop_rejected hrejected (Nat.succ_pos _)]
  refine if_congr ?_ rfl rfl
  rw [length_collectedValues]
  exact Nat.lt_succ_iff

/-- The text is in its buffer just when it takes no more than eleven bytes for each member. -/
theorem enumLoop_fits_iff {vs : List Json} (hrejected : Rejected platform value spec 0 vs) :
    (∃ text, enumLoop platform value spec (vs.length * (8 + 3) + 1) 0 [] vs = .ok (false, text)) ↔
      TextFits vs := by
  rw [enumLoop_of_rejected hrejected]
  by_cases h : TextFits vs
  · rw [if_pos h]
    exact iff_of_true ⟨_, rfl⟩ h
  · rw [if_neg h]
    exact iff_of_false (fun ⟨_, hrun⟩ => nomatch hrun) h

def textOf (s : String) : Json := .scalar (.string (ofBytes (ascii s)))

theorem rejected_other {v w : Json} (h : jsonEquals noPatterns ⟨[], v⟩ w 0 0 = false) :
    Rejected noPatterns ⟨[], v⟩ 0 0 [w] := by
  intro i u hu
  cases i with
  | zero =>
    cases hu
    exact h
  | succ i => cases hu

theorem enumLoop_fits_iff_short :
    (∃ text, enumLoop noPatterns ⟨[], textOf "DEBUG"⟩ 0 12 0 [] [textOf "INFO"] =
      .ok (false, text)) ↔ TextFits [textOf "INFO"] :=
  enumLoop_fits_iff (rejected_other (by decide))

/-- One member, of thirteen bytes. -/
theorem not_enumLoop_fits :
    Rejected noPatterns ⟨[], textOf "other"⟩ 0 0 [textOf "configuration"] ∧
      enumLoop noPatterns ⟨[], textOf "other"⟩ 0 (1 * (8 + 3) + 1) 0 [] [textOf "configuration"] =
        .error .undefinedBehaviour := by
  have hrejected : Rejected noPatterns ⟨[], textOf "other"⟩ 0 0 [textOf "configuration"] :=
    rejected_other (by decide)
  refine ⟨hrejected, ?_⟩
  have hloop := enumLoop_of_rejected hrejected
  rw [if_neg (by decide)] at hloop
  exact hloop

end JsonSchema
end ZoweCommon
