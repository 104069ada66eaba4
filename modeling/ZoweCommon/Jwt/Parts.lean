import ZoweCommon.Jwt.Token

/-! The parts of a text, and the memory they are decoded in. -/
namespace ZoweCommon
namespace JsonWebToken

def EndsPart (rest : List Byte) : Prop := rest = [] ∨ ∃ s, rest = ASCII_PERIOD :: s

/-- A part with its terminator and two more bytes. -/
def HasRoom (part memory : List Byte) : Prop := ∃ x y, memory = part ++ [0, x, y]

section parts

variable {part rest : List Byte}

theorem strtok_r_append (hne : part ≠ []) (hpart : ∀ c ∈ part, c ≠ ASCII_PERIOD) :
    strtok_r (part ++ rest) = some (part ++ rest) := by
  obtain ⟨c, s, rfl⟩ := List.exists_cons_of_ne_nil hne
  have hc := hpart c List.mem_cons_self
  unfold strtok_r
  rw [List.cons_append, List.dropWhile_cons_of_neg (by simpa using hc)]

theorem partText_append (hpart : ∀ c ∈ part, c ≠ ASCII_PERIOD) (hrest : EndsPart rest) :
    partText (part ++ rest) = part := by
  unfold partText
  rw [List.takeWhile_append_of_pos (fun c hc => by simpa using hpart c hc)]
  rcases hrest with rfl | ⟨s, rfl⟩
  · rw [List.takeWhile_nil, List.append_nil]
  · rw [List.takeWhile_cons_of_neg (by simp), List.append_nil]

theorem dropWhile_append (hpart : ∀ c ∈ part, c ≠ ASCII_PERIOD) (hrest : EndsPart rest) :
    (part ++ rest).dropWhile (· ≠ ASCII_PERIOD) = rest := by
  rw [List.dropWhile_append_of_pos (fun c hc => by simpa using hpart c hc)]
  rcases hrest with rfl | ⟨s, rfl⟩
  · rw [List.dropWhile_nil]
  · rw [List.dropWhile_cons_of_neg (by simp)]

theorem terminated_append (hpart : ∀ c ∈ part, c ≠ ASCII_PERIOD) (inPart : Bool)
    (h : part ≠ [] ∨ inPart = true) :
    terminated inPart (part ++ rest) = part ++ terminated true rest := by
  induction part generalizing inPart with
  | nil =>
    rw [h.resolve_left (not_not.mpr rfl)]
    rfl
  | cons c part ih =>
    have hc := hpart c List.mem_cons_self
    rw [List.cons_append, terminated, if_neg hc,
      ih (fun d hd => hpart d (List.mem_cons_of_mem _ hd)) true (Or.inr rfl), List.cons_append]

theorem two_le_length_terminated (inPart : Bool) (s : List Byte) :
    2 ≤ (terminated inPart s).length := by
  induction s generalizing inPart with
  | nil =>
    rw [terminated, List.length_replicate]
    decide
  | cons c s ih =>
    rw [terminated]
    split_ifs
    · exact (ih false).trans (Nat.le_succ _)
    · exact (ih false).trans (Nat.le_succ _)
    · exact (ih true).trans (Nat.le_succ _)

theorem terminated_rest (hrest : EndsPart rest) : ∃ x y t, terminated true rest = 0 :: x :: y :: t := by
  rcases hrest with rfl | ⟨s, rfl⟩
  · exact ⟨0, 0, List.replicate 4 0, rfl⟩
  · have hlength := two_le_length_terminated false s
    rw [terminated, if_pos rfl, if_pos rfl]
    match terminated false s, hlength with
    | x :: y :: t, _ => exact ⟨x, y, t, rfl⟩

theorem movedPart_append (hne : part ≠ []) (hpart : ∀ c ∈ part, c ≠ ASCII_PERIOD)
    (hrest : EndsPart rest) : HasRoom part (movedPart (part ++ rest)) := by
  obtain ⟨x, y, t, ht⟩ := terminated_rest hrest
  refine ⟨x, y, ?_⟩
  unfold movedPart
  rw [partText_append hpart hrest, terminated_append hpart false (Or.inl hne), ht]
  have hsplit : part ++ 0 :: x :: y :: t = (part ++ [0, x, y]) ++ t := by simp
  have hlength : part.length + 1 + BASE64URL_EXTRA_BYTES = (part ++ [0, x, y]).length := by
    rw [List.length_append]
    rfl
  rw [hsplit, hlength, List.take_left]

end parts

theorem exists_part (s : List Byte) : ∃ part rest, s = part ++ rest ∧
    (∀ c ∈ part, c ≠ ASCII_PERIOD) ∧ EndsPart rest := by
  induction s with
  | nil => exact ⟨[], [], rfl, List.forall_mem_nil _, Or.inl rfl⟩
  | cons c s ih =>
    by_cases hc : c = ASCII_PERIOD
    · exact ⟨[], c :: s, rfl, List.forall_mem_nil _, Or.inr ⟨s, by rw [hc]⟩⟩
    · obtain ⟨part, rest, rfl, hpart, hrest⟩ := ih
      exact ⟨c :: part, rest, rfl, List.forall_mem_cons.mpr ⟨hc, hpart⟩, hrest⟩

theorem strtok_r_eq_some {s s' : List Byte} (h : strtok_r s = some s') :
    s' <:+ s ∧ ∃ c t, s' = c :: t ∧ c ≠ ASCII_PERIOD := by
  have hsuffix := List.dropWhile_suffix (fun c => decide (c = ASCII_PERIOD)) (l := s)
  unfold strtok_r at h
  match hdrop : s.dropWhile (· = ASCII_PERIOD), h with
  | c :: t, h =>
    have hne : s.dropWhile (fun c => decide (c = ASCII_PERIOD)) ≠ [] := by
      rw [hdrop]
      exact List.cons_ne_nil _ _
    have hhead := List.head_dropWhile_not _ hne
    simp only [hdrop, List.head_cons, decide_eq_false_iff_not] at hhead
    rw [← Option.some_inj.mp h]
    rw [hdrop] at hsuffix
    exact ⟨hsuffix, c, t, rfl, hhead⟩

theorem strtok_r_eq_none {s : List Byte} (h : strtok_r s = none) : ∀ c ∈ s, c = ASCII_PERIOD := by
  unfold strtok_r at h
  match hdrop : s.dropWhile (· = ASCII_PERIOD), h with
  | [], _ => simpa using hdrop

theorem findParts_room (calls : ℕ) {s : List Byte} (hnoNul : NoNul s) :
    ∀ s' ∈ findParts calls s, ∃ part, NoNul part ∧ HasRoom part (movedPart s') := by
  induction calls generalizing s with
  | zero => exact List.forall_mem_nil _
  | succ calls ih =>
    rw [findParts]
    match hfound : strtok_r s with
    | none => exact List.forall_mem_nil _
    | some s' =>
      obtain ⟨hsuffix, c, t, hcons, hc⟩ := strtok_r_eq_some hfound
      have hnoNul' : NoNul s' := fun b hb => hnoNul b (hsuffix.subset hb)
      obtain ⟨part, rest, hs', hpart, hrest⟩ := exists_part s'
      have hpartNe : part ≠ [] := by
        intro hnil
        rw [hnil, List.nil_append, hcons] at hs'
        rcases hrest with rfl | ⟨u, rfl⟩
        · exact List.cons_ne_nil _ _ hs'
        · exact hc (List.cons.inj hs').1
      rw [List.forall_mem_cons]
      constructor
      · rw [hs']
        exact ⟨part, fun b hb => hnoNul' b (by rw [hs']; exact List.mem_append_left _ hb),
          movedPart_append hpartNe hpart hrest⟩
      · apply ih
        intro b hb
        exact hnoNul' b ((List.dropWhile_sublist _).subset (List.mem_of_mem_tail hb))

/-! Texts with a period between each two parts -/

theorem intercalate_cons (part : List Byte) (parts : List (List Byte)) :
    ∃ rest, EndsPart rest ∧ [ASCII_PERIOD].intercalate (part :: parts) = part ++ rest ∧
      rest.tail = [ASCII_PERIOD].intercalate parts := by
  cases parts with
  | nil => exact ⟨[], Or.inl rfl, by rw [List.intercalate_singleton, List.append_nil], rfl⟩
  | cons next parts =>
    refine ⟨ASCII_PERIOD :: [ASCII_PERIOD].intercalate (next :: parts), Or.inr ⟨_, rfl⟩, ?_, rfl⟩
    rw [List.intercalate_cons_cons, List.append_assoc, List.singleton_append]

theorem findParts_intercalate {parts : List (List Byte)}
    (h : ∀ part ∈ parts, part ≠ [] ∧ ∀ c ∈ part, c ≠ ASCII_PERIOD) {calls : ℕ}
    (hcalls : parts.length ≤ calls) : List.Forall₂ HasRoom parts
      ((findParts calls ([ASCII_PERIOD].intercalate parts)).map movedPart) := by
  induction parts generalizing calls with
  | nil =>
    rw [List.intercalate_nil]
    cases calls with
    | zero => exact .nil
    | succ calls => exact .nil
  | cons part parts ih =>
    obtain ⟨rest, hrest, htext, htail⟩ := intercalate_cons part parts
    obtain ⟨hne, hpart⟩ := h part List.mem_cons_self
    cases calls with
    | zero => exact absurd hcalls (Nat.not_succ_le_zero _)
    | succ calls =>
      rw [htext, findParts, strtok_r_append hne hpart]
      dsimp only
      rw [dropWhile_append hpart hrest, htail, List.map_cons]
      apply List.Forall₂.cons
      · exact movedPart_append hne hpart hrest
      · exact ih (fun p hp => h p (List.mem_cons_of_mem _ hp)) (Nat.le_of_succ_le_succ hcalls)

theorem isText_char {text : List Byte} (h : Base64url.IsText text) {c : Byte} (hc : c ∈ text) :
    c ≠ 0 ∧ c ≠ ASCII_PERIOD := by
  have hall : ∀ c : Byte, (Base64url.sextet? c).isSome → c ≠ 0 ∧ c ≠ ASCII_PERIOD := by
    decide +kernel
  exact hall c (h.sextets c hc)

theorem decodeParts_valid {parts memories : List (List Byte)}
    (h : List.Forall₂ HasRoom parts memories) (hparts : ∀ part ∈ parts, Base64url.IsText part)
    (done : List (List Byte)) : decodeParts done memories =
      .ok ((done.length + parts.length : ℕ), done ++ parts.map Base64url.decode) := by
  induction h generalizing done with
  | nil =>
    rw [decodeParts, List.map_nil, List.append_nil]
    rfl
  | @cons part memory parts memories hroom _ ih =>
    obtain ⟨x, y, rfl⟩ := hroom
    have htext := hparts part List.mem_cons_self
    obtain ⟨rc, hrc, rest, hpad, -⟩ := base64urlToBase64_eq (fun c hc => (isText_char htext hc).1)
      htext.length x y
    have hlength : ¬((Base64url.decode part).length : ℤ) < 0 := by omega
    rw [decodeParts, hpad]
    dsimp only
    rw [if_neg (not_lt.mpr hrc), decodeBase64_padded htext, Exec.ok_bind]
    dsimp only
    rw [if_neg hlength, ih (fun p hp => hparts p (List.mem_cons_of_mem _ hp)), List.length_append,
      List.length_singleton, List.append_assoc, List.singleton_append, List.map_cons,
      List.length_cons, Nat.add_right_comm, Nat.add_assoc]

theorem decodeParts_ok {memories : List (List Byte)}
    (h : ∀ memory ∈ memories, ∃ part, NoNul part ∧ HasRoom part memory)
    (done : List (List Byte)) (hne : done ≠ [] ∨ memories ≠ []) :
    ∃ n parts, decodeParts done memories = .ok (n, parts) ∧ 1 ≤ n := by
  induction memories generalizing done with
  | nil =>
    have hdone := List.length_pos_iff.mpr (hne.resolve_right (not_not.mpr rfl))
    exact ⟨done.length, done, rfl, by omega⟩
  | cons memory memories ih =>
    obtain ⟨part, hnoNul, x, y, rfl⟩ := h memory List.mem_cons_self
    have hrest := ih (fun m hm => h m (List.mem_cons_of_mem _ hm))
    rw [decodeParts]
    by_cases hlength : part.length % 4 = 1
    · have hrc := base64urlToBase64_error hnoNul hlength x y
      exact ⟨_, _, if_pos hrc, by decide⟩
    · obtain ⟨rc, hrc, rest, hpad, hroom⟩ := base64urlToBase64_eq hnoNul hlength x y
      obtain ⟨n, data, hdecode⟩ := decodeBase64_ok (noNul_padded hnoNul) hroom
      rw [hpad]
      dsimp only
      rw [if_neg (not_lt.mpr hrc), hdecode, Exec.ok_bind]
      dsimp only
      by_cases hn : n < 0
      · exact ⟨_, _, if_pos hn, by decide⟩
      · rw [if_neg hn]
        exact hrest (done ++ [data]) (Or.inl (by simp))

end JsonWebToken
end ZoweCommon
