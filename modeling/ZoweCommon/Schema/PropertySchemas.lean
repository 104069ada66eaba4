import Mathlib.Algebra.Order.BigOperators.Group.List
import ZoweCommon.Schema.PropertyCounts

/-! Which of the sub-schemas for a property are applied to its value. -/
namespace ZoweCommon
namespace JsonSchema

open CLibrary CString

variable {platform : Platform} {validator : JsonValidator} {validate : Validate}
  {valueSpec : JSValueSpec} {st : ValidatorState}

def ofTypes (typeMask : BitVec 32) : JSValueSpec := { typeMask := typeMask }

/-- What the leaves are where one is for nulls only. -/
def leaves (nullsOnly size : ℕ) : JsonValidator :=
  ⟨(List.range size).map fun spec =>
    if spec = nullsOnly then ofTypes 1 else ofTypes (BitVec.allOnes 32), 0, [], true⟩

/-- The level that is not a reference is the level that was asked for. -/
theorem followRefs_of_noRef {fuel spec : ℕ} (h : validator.specs[spec]? = some valueSpec)
    (href : valueSpec.ref = none) :
    followRefs platform validator st (fuel + 1) spec = .ok (.ok spec) := by
  have hat : specAt validator spec = .ok valueSpec := by rw [specAt, h]; rfl
  rw [followRefs, hat, Exec.ok_bind, href]
  rfl

end JsonSchema
end ZoweCommon
