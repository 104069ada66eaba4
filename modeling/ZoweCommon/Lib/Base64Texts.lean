import ZoweCommon.Lib.PaddedBase64

/-! Which texts are base 64, and when two of them stand for the same octets. -/
namespace PaddedBase64

section Octets

variable (a b c d : BitVec 6)

theorem firstSextet_octets : firstSextet (firstOctet a b) = a := by
  unfold firstSextet firstOctet
  ext i hi
  have hcases : i = 0 ∨ i = 1 ∨ i = 2 ∨ i = 3 ∨ i = 4 ∨ i = 5 := by omega
  rcases hcases with rfl | rfl | rfl | rfl | rfl | rfl <;> simp

theorem secondSextet_octets : secondSextet (firstOctet a b) (secondOctet b c) = b := by
  unfold secondSextet firstOctet secondOctet
  ext i hi
  have hcases : i = 0 ∨ i = 1 ∨ i = 2 ∨ i = 3 ∨ i = 4 ∨ i = 5 := by omega
  rcases hcases with rfl | rfl | rfl | rfl | rfl | rfl <;> simp

theorem thirdSextet_octets : thirdSextet (secondOctet b c) (thirdOctet c d) = c := by
  unfold thirdSextet secondOctet thirdOctet
  ext i hi
  have hcases : i = 0 ∨ i = 1 ∨ i = 2 ∨ i = 3 ∨ i = 4 ∨ i = 5 := by omega
  rcases hcases with rfl | rfl | rfl | rfl | rfl | rfl <;> simp

theorem fourthSextet_octets : fourthSextet (thirdOctet c d) = d := by
  unfold fourthSextet thirdOctet
  ext i hi
  have hcases : i = 0 ∨ i = 1 ∨ i = 2 ∨ i = 3 ∨ i = 4 ∨ i = 5 := by omega
  rcases hcases with rfl | rfl | rfl | rfl | rfl | rfl <;> simp

/-- What is left of a sextet before the padding. -/
theorem firstOctet_low : (firstOctet a b).truncate 2 = (b >>> 4).truncate 2 := by
  unfold firstOctet
  ext i hi
  have hcases : i = 0 ∨ i = 1 := by omega
  rcases hcases with rfl | rfl <;> simp

theorem secondOctet_low : (secondOctet b c).truncate 4 = (c >>> 2).truncate 4 := by
  unfold secondOctet
  ext i hi
  have hcases : i = 0 ∨ i = 1 ∨ i = 2 ∨ i = 3 := by omega
  rcases hcases with rfl | rfl | rfl | rfl <;> simp

end Octets

/-- Another character set. -/
def Alphabet.translate (A : Alphabet) (f g : Octet → Octet) (h : ∀ c, g (f c) = c) : Alphabet where
  char bits := f (A.char bits)
  sextet? c := A.sextet? (g c)
  pad := f A.pad
  sextet?_char bits := by rw [h, A.sextet?_char]
  sextet?_pad := by rw [h, A.sextet?_pad]

/-- No two characters stand for the same six bits. -/
def Alphabet.Exact (A : Alphabet) : Prop := ∀ c bits, A.sextet? c = some bits → A.char bits = c

theorem exact_ascii : ascii.Exact := by
  have hall : ∀ c, (asciiSextet? c).all (asciiChar · = c) = true := by decide +kernel
  intro c bits hc
  exact of_decide_eq_true ((Option.all_eq_true _ _).mp (hall c) bits hc)

theorem Alphabet.Exact.translate {A : Alphabet} (hA : A.Exact) {f g : Octet → Octet}
    (h : ∀ c, g (f c) = c) (h' : ∀ c, f (g c) = c) : (A.translate f g h).Exact := by
  intro c bits hc
  show f (A.char bits) = c
  rw [hA _ _ hc, h']

/-- Groups of four characters with at most two of padding at the very end. -/
structure IsText (A : Alphabet) (text : List Octet) : Prop where
  dvd : 4 ∣ text.length
  padded : ∃ chars k, text = chars ++ List.replicate k A.pad ∧ k ≤ 2 ∧
    ∀ c ∈ chars, (A.sextet? c).isSome

section Texts

variable {A : Alphabet} {a b c d : Octet} {text : List Octet}

theorem isText_nil : IsText A [] := ⟨Nat.dvd_zero 4, [], 0, rfl, Nat.zero_le 2, nofun⟩

theorem IsText.cons (h : IsText A text) (ha : (A.sextet? a).isSome) (hb : (A.sextet? b).isSome)
    (hc : (A.sextet? c).isSome) (hd : (A.sextet? d).isSome) :
    IsText A (a :: b :: c :: d :: text) := by
  obtain ⟨hdvd, chars, k, rfl, hk, hchars⟩ := h
  refine ⟨?_, a :: b :: c :: d :: chars, k, rfl, hk, ?_⟩
  · simp only [List.length_cons]
    omega
  · simp only [List.forall_mem_cons]
    exact ⟨ha, hb, hc, hd, hchars⟩

/-- The groups that a text can begin with. -/
theorem IsText.cases (h : IsText A (a :: b :: c :: d :: text)) :
    (A.sextet? a).isSome ∧ (A.sextet? b).isSome ∧
      ((A.sextet? c).isSome ∧ (A.sextet? d).isSome ∧ IsText A text ∨
        (A.sextet? c).isSome ∧ d = A.pad ∧ text = [] ∨ c = A.pad ∧ d = A.pad ∧ text = []) := by
  obtain ⟨hdvd, chars, k, htext, hk, hchars⟩ := h
  have hlength := congrArg List.length htext
  rw [List.length_append, List.length_replicate] at hlength
  simp only [List.length_cons] at hlength hdvd
  match chars, htext with
  | [], _ | [_], _ =>
    simp only [List.length_cons, List.length_nil] at hlength
    omega
  | [_, _], htext =>
    have hk : k = 2 := by
      simp only [List.length_cons, List.length_nil] at hlength
      omega
    subst hk
    obtain ⟨rfl, rfl, rfl, rfl, rfl⟩ := by simpa using htext
    simp only [List.forall_mem_cons] at hchars
    exact ⟨hchars.1, hchars.2.1, .inr (.inr ⟨rfl, rfl, rfl⟩)⟩
  | [_, _, _], htext =>
    have hk : k = 1 := by
      simp only [List.length_cons, List.length_nil] at hlength
      omega
    subst hk
    obtain ⟨rfl, rfl, rfl, rfl, rfl⟩ := by simpa using htext
    simp only [List.forall_mem_cons] at hchars
    exact ⟨hchars.1, hchars.2.1, .inr (.inl ⟨hchars.2.2.1, rfl, rfl⟩)⟩
  | _ :: _ :: _ :: _ :: chars, htext =>
    obtain ⟨rfl, rfl, rfl, rfl, rfl⟩ := by simpa using htext
    simp only [List.forall_mem_cons] at hchars
    obtain ⟨ha, hb, hc, hd, hrest⟩ := hchars
    exact ⟨ha, hb, .inl ⟨hc, hd, by omega, chars, k, rfl, hk, hrest⟩⟩

/-- What a text that begins with a group stands for. -/
theorem decode_cons_iff {data : List Octet} : decode A (a :: b :: c :: d :: text) = some data ↔
    ∃ x y, A.sextet? a = some x ∧ A.sextet? b = some y ∧
      ((∃ z w rest, A.sextet? c = some z ∧ A.sextet? d = some w ∧ decode A text = some rest ∧
          data = firstOctet x y :: secondOctet y z :: thirdOctet z w :: rest) ∨
        (∃ z, A.sextet? c = some z ∧ d = A.pad ∧ text = [] ∧
          data = [firstOctet x y, secondOctet y z]) ∨
        (c = A.pad ∧ d = A.pad ∧ text = [] ∧ data = [firstOctet x y])) := by
  have hpad {e : Octet} {x : BitVec 6} (h : A.sextet? e = some x) : e ≠ A.pad := by
    rintro rfl
    rw [A.sextet?_pad] at h
    cases h
  rw [decode]
  cases ha : A.sextet? a with
  | none => simp
  | some x =>
    cases hb : A.sextet? b with
    | none => simp
    | some y =>
      cases hc : A.sextet? c with
      | some z =>
        have hne := hpad hc
        cases hd : A.sextet? d with
        | some w =>
          have hne' := hpad hd
          simp [hne, hne', Option.map_eq_some_iff, eq_comm (b := data)]
        | none => simp [hne, eq_comm, and_assoc]
      | none =>
        cases hd : A.sextet? d with
        | some w =>
          have hne := hpad hd
          simp [hne]
        | none => simp [eq_comm, and_assoc]

/-- The groups before the last are full. -/
theorem IsText.exists_last (h : IsText A text) (hne : text ≠ []) :
    ∃ front a b c d, text = front ++ [a, b, c, d] ∧ 4 ∣ front.length ∧
      (∀ e ∈ front, (A.sextet? e).isSome) ∧ IsText A [a, b, c, d] := by
  induction hn : text.length using Nat.strongRecOn generalizing text with
  | ind n ih =>
    match text, hne with
    | [_], _ | [_, _], _ | [_, _, _], _ => exact absurd h.dvd (by simp)
    | [a, b, c, d], _ => exact ⟨[], a, b, c, d, rfl, Nat.dvd_zero 4, nofun, h⟩
    | a :: b :: c :: d :: e :: text, _ =>
      obtain ⟨ha, hb, ⟨hc, hd, htext⟩ | ⟨-, -, hnil⟩ | ⟨-, -, hnil⟩⟩ := h.cases
      · have hless : (e :: text).length < n := by
          rw [← hn]
          simp only [List.length_cons]
          omega
        obtain ⟨front, a', b', c', d', heq, hdvd, hfront, hlast⟩ := ih _ hless htext (by simp) rfl
        refine ⟨a :: b :: c :: d :: front, a', b', c', d', ?_, ?_, ?_, hlast⟩
        · rw [heq]
          rfl
        · simp only [List.length_cons]
          omega
        · simp only [List.forall_mem_cons]
          exact ⟨ha, hb, hc, hd, hfront⟩
      · cases hnil
      · cases hnil

theorem decode_short (h : text ≠ []) (hlength : text.length < 4) : decode A text = none := by
  match text, h, hlength with
  | [_], _, _ | [_, _], _, _ | [_, _, _], _, _ => rfl

/-- The texts that stand for octets are those of groups with padding at the end. -/
theorem isText_iff : IsText A text ↔ ∃ data, decode A text = some data := by
  induction h : text.length using Nat.strongRecOn generalizing text with
  | ind n ih =>
    match text with
    | [] => exact iff_of_true isText_nil ⟨[], rfl⟩
    | [_] | [_, _] | [_, _, _] =>
      refine iff_of_false (fun htext => ?_) (fun ⟨data, hdata⟩ => ?_)
      · exact absurd htext.dvd (by simp)
      · rw [decode_short (by simp) (by simp)] at hdata
        cases hdata
    | a :: b :: c :: d :: text =>
      have ih := ih text.length (by rw [← h]; simp only [List.length_cons]; omega) rfl
      constructor
      · intro htext
        obtain ⟨ha, hb, hrest⟩ := htext.cases
        obtain ⟨x, hx⟩ := Option.isSome_iff_exists.mp ha
        obtain ⟨y, hy⟩ := Option.isSome_iff_exists.mp hb
        rcases hrest with ⟨hc, hd, htext⟩ | ⟨hc, hd, htext⟩ | ⟨hc, hd, htext⟩
        · obtain ⟨z, hz⟩ := Option.isSome_iff_exists.mp hc
          obtain ⟨w, hw⟩ := Option.isSome_iff_exists.mp hd
          obtain ⟨rest, hrest⟩ := ih.mp htext
          exact ⟨_, decode_cons_iff.mpr ⟨x, y, hx, hy, .inl ⟨z, w, rest, hz, hw, hrest, rfl⟩⟩⟩
        · obtain ⟨z, hz⟩ := Option.isSome_iff_exists.mp hc
          exact ⟨_, decode_cons_iff.mpr ⟨x, y, hx, hy, .inr (.inl ⟨z, hz, hd, htext, rfl⟩)⟩⟩
        · exact ⟨_, decode_cons_iff.mpr ⟨x, y, hx, hy, .inr (.inr ⟨hc, hd, htext, rfl⟩)⟩⟩
      · rintro ⟨data, hdata⟩
        obtain ⟨x, y, hx, hy, hrest⟩ := decode_cons_iff.mp hdata
        have ha := Option.isSome_of_eq_some hx
        have hb := Option.isSome_of_eq_some hy
        rcases hrest with ⟨z, w, rest, hz, hw, hrest, -⟩ | ⟨z, hz, rfl, rfl, -⟩ | ⟨rfl, rfl, rfl, -⟩
        · exact (ih.mpr ⟨rest, hrest⟩).cons ha hb (Option.isSome_of_eq_some hz)
            (Option.isSome_of_eq_some hw)
        · refine ⟨by simp, [a, b, c], 1, rfl, by decide, ?_⟩
          simp [ha, hb, Option.isSome_of_eq_some hz]
        · refine ⟨by simp, [a, b], 2, rfl, by decide, ?_⟩
          simp [ha, hb]

/-- A partial group is as long as a full one. -/
theorem length_encode (data : List Octet) :
    (encode A data).length = 4 * ((data.length + 2) / 3) := by
  fun_induction encode A data with
  | case1 x y z data ih =>
    simp only [List.length_cons, ih]
    omega
  | case2 x y => simp
  | case3 x => simp
  | case4 => rfl

/-- Full groups, and what comes after them. -/
theorem decode_append (n : ℕ) {front : List Octet} (hlength : front.length = 4 * n)
    (hfront : ∀ e ∈ front, (A.sextet? e).isSome) (text : List Octet) :
    ∃ octets, octets.length = 3 * n ∧ decode A front = some octets ∧
      decode A (front ++ text) = (decode A text).map (octets ++ ·) := by
  induction n generalizing front with
  | zero =>
    rw [List.length_eq_zero_iff.mp hlength]
    exact ⟨[], rfl, rfl, by simp⟩
  | succ n ih =>
    match front, hlength with
    | a :: b :: c :: d :: front, hlength =>
      have hrest : front.length = 4 * n := by
        simp only [List.length_cons] at hlength
        omega
      simp only [List.forall_mem_cons] at hfront
      obtain ⟨ha, hb, hc, hd, hfront⟩ := hfront
      obtain ⟨x, hx⟩ := Option.isSome_iff_exists.mp ha
      obtain ⟨y, hy⟩ := Option.isSome_iff_exists.mp hb
      obtain ⟨z, hz⟩ := Option.isSome_iff_exists.mp hc
      obtain ⟨w, hw⟩ := Option.isSome_iff_exists.mp hd
      obtain ⟨octets, hoctets, hdecode, happend⟩ := ih hrest hfront
      refine ⟨[firstOctet x y, secondOctet y z, thirdOctet z w] ++ octets, ?_, ?_, ?_⟩
      · simp only [List.length_append, List.length_cons, List.length_nil, hoctets]
        omega
      · simp only [decode, hx, hy, hz, hw, hdecode]
        rfl
      · simp only [List.cons_append, decode, hx, hy, hz, hw, happend, Option.map_map]
        rfl

/-- Texts that are the same but for bits of the last character that no octet has. -/
def SameUsedBits (A : Alphabet) (text text' : List Octet) : Prop :=
  text = text' ∨ ∃ front c c' k x x', 0 < k ∧ k ≤ 2 ∧
    text = front ++ c :: List.replicate k A.pad ∧ text' = front ++ c' :: List.replicate k A.pad ∧
    A.sextet? c = some x ∧ A.sextet? c' = some x' ∧ x >>> (2 * k) = x' >>> (2 * k)

theorem SameUsedBits.cons {text' : List Octet} (h : SameUsedBits A text text') (a : Octet) :
    SameUsedBits A (a :: text) (a :: text') := by
  rcases h with rfl | ⟨front, c, c', k, x, x', hpos, hk, rfl, rfl, h⟩
  · exact .inl rfl
  · exact .inr ⟨a :: front, c, c', k, x, x', hpos, hk, rfl, rfl, h⟩

theorem shift_of_firstOctet {x y x' y' : BitVec 6} (h : firstOctet x y = firstOctet x' y') :
    x = x' ∧ y >>> 4 = y' >>> 4 := by
  constructor
  · rw [← firstSextet_octets x y, h, firstSextet_octets]
  · have hall : ∀ y : BitVec 6, y >>> 4 = ((y >>> 4).truncate 2).zeroExtend 6 := by decide +kernel
    rw [hall y, hall y', ← firstOctet_low x, h, firstOctet_low]

theorem shift_of_secondOctet {x y z x' y' z' : BitVec 6} (h : firstOctet x y = firstOctet x' y')
    (h' : secondOctet y z = secondOctet y' z') : x = x' ∧ y = y' ∧ z >>> 2 = z' >>> 2 := by
  refine ⟨(shift_of_firstOctet h).1, ?_, ?_⟩
  · rw [← secondSextet_octets x y z, h, h', secondSextet_octets]
  · have hall : ∀ z : BitVec 6, z >>> 2 = ((z >>> 2).truncate 4).zeroExtend 6 := by decide +kernel
    rw [hall z, hall z', ← secondOctet_low y, h', secondOctet_low]

theorem sameUsedBits_of_decode (hA : A.Exact) {text' data : List Octet}
    (h : decode A text = some data) (h' : decode A text' = some data) :
    SameUsedBits A text text' := by
  have hchar {e e' : Octet} {x : BitVec 6} (he : A.sextet? e = some x)
      (he' : A.sextet? e' = some x) : e = e' := by rw [← hA e x he, hA e' x he']
  induction hn : text.length using Nat.strongRecOn generalizing text text' data with
  | ind n ih =>
    match text, text' with
    | [_], _ | [_, _], _ | [_, _, _], _ =>
      rw [decode_short (by simp) (by simp)] at h
      cases h
    | _, [_] | _, [_, _] | _, [_, _, _] =>
      rw [decode_short (by simp) (by simp)] at h'
      cases h'
    | [], [] => exact .inl rfl
    | [], _ :: _ :: _ :: _ :: _ =>
      obtain ⟨x, y, -, -, hrest⟩ := decode_cons_iff.mp h'
      cases h
      rcases hrest with ⟨z, w, rest, -, -, -, hdata⟩ | ⟨z, -, -, -, hdata⟩ | ⟨-, -, -, hdata⟩
      all_goals cases hdata
    | _ :: _ :: _ :: _ :: _, [] =>
      obtain ⟨x, y, -, -, hrest⟩ := decode_cons_iff.mp h
      cases h'
      rcases hrest with ⟨z, w, rest, -, -, -, hdata⟩ | ⟨z, -, -, -, hdata⟩ | ⟨-, -, -, hdata⟩
      all_goals cases hdata
    | a :: b :: c :: d :: text, a' :: b' :: c' :: d' :: text' =>
      obtain ⟨x, y, hx, hy, hrest⟩ := decode_cons_iff.mp h
      obtain ⟨x', y', hx', hy', hrest'⟩ := decode_cons_iff.mp h'
      rcases hrest with ⟨z, w, rest, hz, hw, htext, hdata⟩ | ⟨z, hz, rfl, rfl, hdata⟩ |
        ⟨rfl, rfl, rfl, hdata⟩
      · rcases hrest' with ⟨z', w', rest', hz', hw', htext', hdata'⟩ | ⟨z', -, -, -, hdata'⟩ |
          ⟨-, -, -, hdata'⟩
        · rw [hdata] at hdata'
          obtain ⟨hfirst, hdata'⟩ := List.cons.inj hdata'
          obtain ⟨hsecond, hdata'⟩ := List.cons.inj hdata'
          obtain ⟨hthird, rfl⟩ := List.cons.inj hdata'
          obtain ⟨rfl, rfl, -⟩ := shift_of_secondOctet hfirst hsecond
          have hz₂ : z = z' := by
            rw [← thirdSextet_octets y z w, hsecond, hthird, thirdSextet_octets]
          have hw₂ : w = w' := by
            rw [← fourthSextet_octets z w, hthird, fourthSextet_octets]
          subst hz₂ hw₂
          rw [hchar hx hx', hchar hy hy', hchar hz hz', hchar hw hw']
          have hless : text.length < n := by
            rw [← hn]
            simp only [List.length_cons]
            omega
          exact ((((ih _ hless htext htext' rfl).cons _).cons _).cons _).cons _
        · simp [hdata] at hdata'
        · simp [hdata] at hdata'
      · rcases hrest' with ⟨z', w', rest', -, -, -, hdata'⟩ | ⟨z', hz', rfl, rfl, hdata'⟩ |
          ⟨-, -, -, hdata'⟩
        · simp [hdata] at hdata'
        · rw [hdata] at hdata'
          obtain ⟨hfirst, hdata'⟩ := List.cons.inj hdata'
          obtain ⟨hsecond, -⟩ := List.cons.inj hdata'
          obtain ⟨rfl, rfl, hshift⟩ := shift_of_secondOctet hfirst hsecond
          rw [hchar hx hx', hchar hy hy']
          exact .inr ⟨[a', b'], c, c', 1, z, z', Nat.one_pos, by decide, rfl, rfl, hz, hz', hshift⟩
        · simp [hdata] at hdata'
      · rcases hrest' with ⟨z', w', rest', -, -, -, hdata'⟩ | ⟨z', -, -, -, hdata'⟩ |
          ⟨rfl, rfl, rfl, hdata'⟩
        · simp [hdata] at hdata'
        · simp [hdata] at hdata'
        · rw [hdata] at hdata'
          obtain ⟨rfl, hshift⟩ := shift_of_firstOctet (List.cons.inj hdata').1
          rw [hchar hx hx']
          exact .inr ⟨[a'], b, b', 2, y, y', Nat.two_pos, Nat.le_refl 2, rfl, rfl, hy, hy', hshift⟩

end Texts

end PaddedBase64
