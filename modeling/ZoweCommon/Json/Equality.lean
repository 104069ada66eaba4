import ZoweCommon.Json.Tree
import ZoweCommon.Lib.Binary64

/-! When two JSON values are equal. -/
namespace ZoweCommon
namespace Json

mutual

/-- The same type and value. Doubles are compared as numbers, and the properties of objects may be
in any order. -/
inductive Same : Json → Json → Prop
  | scalar (s : JsonScalar) : Same (.scalar s) (.scalar s)
  | double {x y : BitVec 64} (h : Binary64.eq x y = true) :
    Same (.scalar (.double x)) (.scalar (.double y))
  | array {es fs : List Json} (h : SameElements es fs) : Same (.array es) (.array fs)
  | object {ps qs : List (CString × Json)} (h : SameProperties ps qs) : Same (.object ps) (.object qs)

inductive SameElements : List Json → List Json → Prop
  | nil : SameElements [] []
  | cons {e f : Json} {es fs : List Json} (h : Same e f) (hs : SameElements es fs) :
    SameElements (e :: es) (f :: fs)

inductive SameProperties : List (CString × Json) → List (CString × Json) → Prop
  | nil : SameProperties [] []
  | cons {name : CString} {v w : Json} {ps qs qs' : List (CString × Json)} (h : Same v w)
    (hqs : qs.Perm ((name, w) :: qs')) (hs : SameProperties ps qs') :
    SameProperties ((name, v) :: ps) qs

end

theorem same_scalar_iff {s t : JsonScalar} : Same (.scalar s) (.scalar t) ↔
    s = t ∨ ∃ x y, s = .double x ∧ t = .double y ∧ Binary64.eq x y = true := by
  constructor
  · intro h
    cases h with
    | scalar => exact .inl rfl
    | double h => exact .inr ⟨_, _, rfl, rfl, h⟩
  · rintro (rfl | ⟨x, y, rfl, rfl, h⟩)
    · exact .scalar s
    · exact .double h

end Json
end ZoweCommon
