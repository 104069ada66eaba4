import ZoweCommon.Http.HeaderText

/-! The headers of a request by name. -/
namespace ZoweCommon
namespace Http

open Ebcdic (upchar compareIgnoringCase)

/-- Names of headers that go on after the name that is asked for are taken too. -/
def getHeader (name : CString) : List HttpHeader → Exec (Option HttpHeader)
  | [] => return none
  | header :: headerChain => do
    let diff ← compareIgnoringCase (name.bytes ++ [0])
      ((CString.ofBytes header.nativeName).bytes ++ [0]) name.strlen
    if diff = 0 then return some header else getHeader name headerChain

/-- A header that is missing cannot be compared. -/
def headerMatch (header : Option HttpHeader) (s : CString) : Exec Bool :=
  match header with
  | none => throw .undefinedBehaviour
  | some header => return CString.ofBytes header.nativeValue = s

def IsNamed (name : CString) (header : HttpHeader) : Prop :=
  name.bytes.map upchar <+: (CString.ofBytes header.nativeName).bytes.map upchar

instance (name : CString) : DecidablePred (IsNamed name) :=
  fun _ => inferInstanceAs (Decidable (_ <+: _))

theorem upchar_ne_zero {c : Byte} (h : c ≠ 0) : upchar c ≠ upchar 0 := by
  have hall : ∀ c : Byte, c ≠ 0 → upchar c ≠ upchar 0 := by decide +kernel
  exact hall c h

/-- The comparison ends at the first difference, or at the end of the name. -/
theorem compareIgnoringCase_terminated {name text : List Byte} (hname : NoNul name) :
    ∃ diff, compareIgnoringCase (name ++ [0]) (text ++ [0]) name.length = .ok diff ∧
      (diff = 0 ↔ name.map upchar <+: text.map upchar) := by
  induction name generalizing text with
  | nil =>
    refine ⟨0, rfl, ?_⟩
    simp
  | cons c name ih =>
    obtain ⟨hc, hrest⟩ := List.forall_mem_cons.mp hname
    cases text with
    | nil =>
      have hdiff : ((upchar c).toNat : ℤ) - (upchar 0).toNat ≠ 0 :=
        fun hzero => upchar_ne_zero hc (sub_toNat_eq_zero.mp hzero)
      refine ⟨((upchar c).toNat : ℤ) - (upchar 0).toNat, ?_, ?_⟩
      · rw [List.length_cons, List.cons_append, List.nil_append, compareIgnoringCase]
        exact if_pos hdiff
      · constructor
        · exact fun hzero => absurd hzero hdiff
        · exact fun hstart => absurd (List.prefix_nil.mp hstart) (List.cons_ne_nil _ _)
    | cons d text =>
      by_cases hsame : upchar c = upchar d
      · obtain ⟨diff, hrun, hdiff⟩ := @ih text hrest
        refine ⟨diff, ?_, ?_⟩
        · rw [List.length_cons, List.cons_append, List.cons_append, compare_same hsame, hrun]
        · rw [hdiff, List.map_cons, List.map_cons, hsame, List.cons_prefix_cons]
          simp
      · have hdiff : ((upchar c).toNat : ℤ) - (upchar d).toNat ≠ 0 :=
          fun hzero => hsame (sub_toNat_eq_zero.mp hzero)
        refine ⟨((upchar c).toNat : ℤ) - (upchar d).toNat, ?_, ?_⟩
        · rw [List.length_cons, List.cons_append, List.cons_append, compareIgnoringCase]
          exact if_pos hdiff
        · rw [List.map_cons, List.map_cons, List.cons_prefix_cons]
          simp [hdiff, hsame]

theorem getHeader_eq (name : CString) (headerChain : List HttpHeader) :
    getHeader name headerChain = .ok (headerChain.find? fun header => IsNamed name header) := by
  induction headerChain with
  | nil => rfl
  | cons header headerChain ih =>
    obtain ⟨diff, hrun, hdiff⟩ := @compareIgnoringCase_terminated _
      (CString.ofBytes header.nativeName).bytes name.noNul
    have hcompare : compareIgnoringCase (name.bytes ++ [0])
        ((CString.ofBytes header.nativeName).bytes ++ [0]) name.strlen = .ok diff := hrun
    rw [getHeader, hcompare, Exec.ok_bind]
    by_cases hnamed : IsNamed name header
    · rw [if_pos (hdiff.mpr hnamed), List.find?_cons, decide_eq_true hnamed]
      rfl
    · rw [if_neg fun hzero => hnamed (hdiff.mp hzero), List.find?_cons, decide_eq_false hnamed, ih]

end Http
end ZoweCommon
