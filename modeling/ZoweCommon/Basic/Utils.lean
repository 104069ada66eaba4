import ZoweCommon.Basic.CString

/-! Searches in texts that several parts have in common. -/
namespace ZoweCommon
namespace Utils

/-- Where a character is for the first time from a position on. -/
def indexOf (str : List Byte) (c : Byte) (startPos : ℕ) : Option ℕ :=
  ((str.drop startPos).findIdx? (· = c)).map (startPos + ·)

variable {c : Byte} {user str : List Byte}

theorem indexOf_zero_none (h : indexOf str c 0 = none) : c ∉ str := by
  unfold indexOf at h
  rw [List.drop_zero, Option.map_eq_none_iff, List.findIdx?_eq_none_iff] at h
  intro hmem
  have hne := h c hmem
  simp at hne

theorem indexOf_eq_none (h : c ∉ str) (start : ℕ) : indexOf str c start = none := by
  unfold indexOf
  rw [Option.map_eq_none_iff, List.findIdx?_eq_none_iff]
  intro b hb
  apply decide_eq_false
  rintro rfl
  exact h (List.mem_of_mem_drop hb)

theorem indexOf_zero_some {i : ℕ} (h : indexOf str c 0 = some i) :
    ∃ before after, str = before ++ c :: after ∧ c ∉ before ∧ i = before.length := by
  unfold indexOf at h
  rw [List.drop_zero] at h
  obtain ⟨j, hj, rfl⟩ := Option.map_eq_some_iff.mp h
  obtain ⟨hlt, hat, hbefore⟩ := List.findIdx?_eq_some_iff_getElem.mp hj
  refine ⟨str.take j, str.drop (j + 1), ?_, ?_, ?_⟩
  · have heq : str[j] = c := by simpa using hat
    rw [← heq, ← List.drop_eq_getElem_cons hlt, List.take_append_drop]
  · intro hmem
    obtain ⟨k, hk, hkc⟩ := List.getElem_of_mem hmem
    rw [List.length_take] at hk
    rw [List.getElem_take] at hkc
    have hne := hbefore k (by omega)
    simp [hkc] at hne
  · rw [List.length_take]
    omega

theorem indexOf_append (h : c ∉ user) (rest : List Byte) :
    indexOf (user ++ c :: rest) c 0 = some user.length := by
  have hnone : user.findIdx? (· = c) = none := by
    apply List.findIdx?_eq_none_iff.mpr
    intro b hb
    apply decide_eq_false
    rintro rfl
    exact h hb
  unfold indexOf
  rw [List.drop_zero, List.findIdx?_append, hnone, List.findIdx?_cons]
  simp

theorem indexOf_from (start : ℕ) :
    indexOf str c start = (indexOf (str.drop start) c 0).map (start + ·) := by
  unfold indexOf
  rw [List.drop_zero, Option.map_map]
  congr 1
  funext i
  simp

end Utils
end ZoweCommon
