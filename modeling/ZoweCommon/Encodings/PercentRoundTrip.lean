import ZoweCommon.Encodings.Base64
import ZoweCommon.Heap.ShortLivedBlocks
import ZoweCommon.Http.QueryParam

/-! Percent encoding of parameters, how they are cleaned of it, and which strings come back. -/
namespace ZoweCommon
namespace Encodings

open Allocation Heap
open Http.QueryParam (URLParmState)

/-! Encoding -/

/-- The cases of the switch: a character, and the two that stand for it after a percent sign. -/
def escapes : List (Char × Char × Char) :=
  [(' ', '2', '0'), ('!', '2', '1'), ('\x22', '2', '2'), ('#', '2', '3'), ('%', '2', '5'),
   ('&', '2', '6'), ('\x27', '2', '7'), ('*', '2', 'A'), ('+', '2', 'B'), (',', '2', 'C'),
   (':', '3', 'A'), (';', '3', 'B'), ('<', '3', 'C'), ('=', '3', 'D'), ('>', '3', 'E'),
   ('?', '3', 'F'), ('[', '5', 'B'), (']', '5', 'D'), ('^', '5', 'E'), ('\x60', '6', '0'),
   ('\x7b', '7', 'B'), ('|', '7', 'C'), ('\x7d', '7', 'D')]

def percentEncodeChar (cs : Charset) (c : Byte) : List Byte :=
  match escapes.find? fun e => cs.char e.1 = c with
  | some e => [cs.char '%', cs.char e.2.1, cs.char e.2.2]
  | none => [c]

/-- What is put into the buffer, and how much of it there is before the terminator. A position
that is no `int` is before the buffer. -/
def percentEncode (cs : Charset) (value : List Byte) : Exec (List Byte × ℤ) :=
  let buffer := value.flatMap (percentEncodeChar cs)
  if toInt32 buffer.length = buffer.length then return (buffer ++ [0], (buffer.length : ℤ))
  else throw .undefinedBehaviour

/-! Cleaning -/

/-- The table of characters, as it is compiled. -/
def asciiTable (cs : Charset) : List Byte :=
  ("                " ++
    "                " ++
    " !\"#$%&'()*+,-./" ++
    "0123456789:;<=>?" ++
    "@ABCDEFGHIJKLMNO" ++
    "PQRSTUVWXYZ[\\]^_" ++
    "`abcdefghijklmno" ++
    "pqrstuvwxyz\x7b|\x7d~ ").toList.map cs.char ++ [0]

def asciiAt (cs : Charset) (highDigit lowDigit : ℕ) : Byte :=
  (asciiTable cs).getD (highDigit * 0x10 + lowDigit) 0

def cleanFrom (cs : Charset) : URLParmState → List Byte → List Byte
  | _, [] => []
  | .normal, c :: value =>
    if c = cs.char '%' then cleanFrom cs .percent value
    else if c = cs.char '+' then cs.char ' ' :: cleanFrom cs .normal value
    else c :: cleanFrom cs .normal value
  | .percent, c :: value =>
    if c = cs.char '%' then cs.char '%' :: cleanFrom cs .percent value
    else if cs.char '2' ≤ c ∧ c ≤ cs.char '7' then cleanFrom cs (.percentNumber c) value
    else cs.char '%' :: c :: cleanFrom cs .normal value
  | .percentNumber numChar, c :: value =>
    let highDigit := (numChar - cs.char '0').toNat
    if cs.char '0' ≤ c ∧ c ≤ cs.char '9' then
      asciiAt cs highDigit (c - cs.char '0').toNat :: cleanFrom cs .normal value
    else if cs.char 'a' ≤ c ∧ c ≤ cs.char 'f' then
      asciiAt cs highDigit (10 + (c - cs.char 'a').toNat) :: cleanFrom cs .normal value
    else if cs.char 'A' ≤ c ∧ c ≤ cs.char 'F' then
      asciiAt cs highDigit (10 + (c - cs.char 'A').toNat) :: cleanFrom cs .normal value
    else if c = cs.char '%' then cs.char '%' :: numChar :: cleanFrom cs .percent value
    else cs.char '%' :: numChar :: c :: cleanFrom cs .normal value

/-- What is cleaned goes to the storage that the heap returns, up to the terminator, and has a
meaning only where that is in one block. -/
def cleanURLParamValue {σ : Type} (cs : Charset) (A : Allocator σ) (b : Build)
    (slh : Heap.ShortLivedHeap) (value : List Byte) (p : Process σ) :
    Exec (List Byte × Heap.ShortLivedHeap × Process σ) := do
  let (data, slh, p) ← Heap.SLHAlloc A b slh (toInt32 (toInt32 value.length + 1)) p
  let cleanValue := cleanFrom cs .normal (value.take (toInt32 value.length).toNat) ++ [0]
  match data with
  | some data =>
    if ∃ elt ∈ slh.blockChain, Extent.Inside ⟨data, cleanValue.length⟩ (room p.sizeAt elt) then
      return (cleanValue, slh, p)
    else throw .undefinedBehaviour
  | none => throw .undefinedBehaviour

theorem literal_eq (s : String) : Ebcdic.literal s = s.toList.map Charset.ebcdic.char := by
  unfold Ebcdic.literal CString.ascii
  rw [List.map_map]
  rfl

theorem asciiAt_ebcdic (highDigit lowDigit : ℕ) :
    asciiAt .ebcdic highDigit lowDigit = Http.QueryParam.asciiAt highDigit lowDigit := by
  unfold asciiAt Http.QueryParam.asciiAt asciiTable Ebcdic.asciiTable
  rw [literal_eq]

/-- On z/OS it is what a query parameter is cleaned with. -/
theorem cleanFrom_ebcdic (state : URLParmState) (value : List Byte) :
    cleanFrom .ebcdic state value = Http.QueryParam.cleanFrom state value := by
  have hpercent : Charset.ebcdic.char '%' = Http.QueryParam.nativePercent := by decide
  have hplus : Charset.ebcdic.char '+' = Http.QueryParam.nativePlus := by decide
  have hblank : Charset.ebcdic.char ' ' = Http.QueryParam.nativeBlank := by decide
  have hzero : Charset.ebcdic.char '0' = Http.QueryParam.native0 := by decide
  have htwo : Charset.ebcdic.char '2' = Http.QueryParam.native0 + 2 := by decide
  have hseven : Charset.ebcdic.char '7' = Http.QueryParam.native0 + 7 := by decide
  have hnine : Charset.ebcdic.char '9' = Http.QueryParam.native0 + 9 := by decide
  have ha : Charset.ebcdic.char 'a' = Http.QueryParam.nativeSmallA := by decide
  have hf : Charset.ebcdic.char 'f' = Http.QueryParam.nativeSmallA + 5 := by decide
  have hA : Charset.ebcdic.char 'A' = Http.QueryParam.nativeA := by decide
  have hF : Charset.ebcdic.char 'F' = Http.QueryParam.nativeA + 5 := by decide
  induction value generalizing state with
  | nil => cases state <;> rfl
  | cons c value ih =>
    cases state with
    | normal =>
      rw [cleanFrom, Http.QueryParam.cleanFrom]
      simp only [hpercent, hplus, hblank, ih]
    | percent =>
      rw [cleanFrom, Http.QueryParam.cleanFrom]
      simp only [hpercent, htwo, hseven, ih]
    | percentNumber numChar =>
      rw [cleanFrom, Http.QueryParam.cleanFrom]
      simp only [hpercent, hzero, hnine, ha, hf, hA, hF, asciiAt_ebcdic, ih]

/-! What comes back -/

/-- A character that takes three. -/
def isEscaped (cs : Charset) (c : Byte) : Bool := escapes.any fun e => cs.char e.1 = c

/-- The string comes back from every heap in use that returns storage for it, and what is cleaned
is never longer than what it is cleaned of. -/
structure UrlRoundTrips (cs : Charset) (s : List Byte) : Prop where
  back : ∃ text : List Byte, NoNul text ∧
    percentEncode cs s = .ok (text ++ [0], (text.length : ℤ)) ∧
    ∀ {σ : Type} (A : Allocator σ) (b : Build) (given : List Extent) (is64 : Bool)
      (t : Session σ), t.Placed A b given is64 → ∀ data slh p,
      Heap.SLHAlloc A b t.slh (toInt32 (toInt32 text.length + 1)) t.process =
        .ok (some data, slh, p) →
      cleanURLParamValue cs A b t.slh text t.process = .ok (s ++ [0], slh, p)
  notLonger : ∀ {σ : Type} (A : Allocator σ) (b : Build) (slh : Heap.ShortLivedHeap) (p : Process σ)
    (text cleanValue : List Byte) (slh' : Heap.ShortLivedHeap) (p' : Process σ),
    cleanURLParamValue cs A b slh text p = .ok (cleanValue, slh', p') →
    cleanValue.length ≤ text.length + 1

section

variable {cs : Charset} {c : Byte} {s : List Byte}

/-! Cleaning -/

/-- The characters that a state holds back. -/
def pending : URLParmState → ℕ
  | .normal => 0
  | .percent => 1
  | .percentNumber _ => 2

theorem length_cleanFrom_le (cs : Charset) (state : URLParmState) (value : List Byte) :
    (cleanFrom cs state value).length ≤ value.length + pending state := by
  induction value generalizing state with
  | nil => cases state <;> exact Nat.zero_le _
  | cons c value ih =>
    have hnormal : (cleanFrom cs .normal value).length ≤ value.length := ih .normal
    have hpercent : (cleanFrom cs .percent value).length ≤ value.length + 1 := ih .percent
    have hnumber : (cleanFrom cs (.percentNumber c) value).length ≤ value.length + 2 :=
      ih (.percentNumber c)
    rw [List.length_cons]
    cases state with
    | normal =>
      rw [cleanFrom]
      unfold pending
      split_ifs <;> simp only [List.length_cons] <;> omega
    | percent =>
      rw [cleanFrom]
      unfold pending
      split_ifs <;> simp only [List.length_cons] <;> omega
    | percentNumber numChar =>
      rw [cleanFrom]
      unfold pending
      dsimp only
      split_ifs <;> simp only [List.length_cons] <;> omega

/-- What an escape needs to be read back: two digits, and the character between them in the
table. -/
def Fits (cs : Charset) (e : Char × Char × Char) : Prop :=
  cs.char e.2.1 ≠ cs.char '%' ∧
  (cs.char '2' ≤ cs.char e.2.1 ∧ cs.char e.2.1 ≤ cs.char '7') ∧
  (if cs.char '0' ≤ cs.char e.2.2 ∧ cs.char e.2.2 ≤ cs.char '9' then
    asciiAt cs (cs.char e.2.1 - cs.char '0').toNat (cs.char e.2.2 - cs.char '0').toNat =
      cs.char e.1
  else ¬(cs.char 'a' ≤ cs.char e.2.2 ∧ cs.char e.2.2 ≤ cs.char 'f') ∧
    (cs.char 'A' ≤ cs.char e.2.2 ∧ cs.char e.2.2 ≤ cs.char 'F') ∧
    asciiAt cs (cs.char e.2.1 - cs.char '0').toNat (10 + (cs.char e.2.2 - cs.char 'A').toNat) =
      cs.char e.1)

instance (cs : Charset) (e : Char × Char × Char) : Decidable (Fits cs e) := by
  unfold Fits
  infer_instance

theorem fits_of_mem (cs : Charset) : ∀ e ∈ escapes, Fits cs e := by
  cases cs with
  | ascii => decide +kernel
  | ebcdic =>
    simp only [Fits, asciiAt_ebcdic, Http.QueryParam.asciiAt, Ebcdic.getD_asciiTable,
      Ebcdic.asciiChar_packed, Charset.char, Ebcdic.toIbm1047_packed]
    decide +kernel

/-- An escape is read back, whatever comes after it. -/
theorem cleanFrom_escape {e : Char × Char × Char} (h : Fits cs e) (rest : List Byte) :
    cleanFrom cs .normal (cs.char '%' :: cs.char e.2.1 :: cs.char e.2.2 :: rest) =
      cs.char e.1 :: cleanFrom cs .normal rest := by
  obtain ⟨hne, hrange, hdigit⟩ := h
  rw [cleanFrom, if_pos rfl, cleanFrom, if_neg hne, if_pos hrange, cleanFrom]
  by_cases h0 : cs.char '0' ≤ cs.char e.2.2 ∧ cs.char e.2.2 ≤ cs.char '9'
  · rw [if_pos h0] at hdigit ⊢
    rw [hdigit]
  · rw [if_neg h0] at hdigit ⊢
    rw [if_neg hdigit.1, if_pos hdigit.2.1, hdigit.2.2]

theorem isEscaped_percent (cs : Charset) : isEscaped cs (cs.char '%') = true :=
  List.any_eq_true.mpr ⟨('%', '2', '5'), by decide, by simp⟩

theorem isEscaped_plus (cs : Charset) : isEscaped cs (cs.char '+') = true :=
  List.any_eq_true.mpr ⟨('+', '2', 'B'), by decide, by simp⟩

/-- Every character is read back. -/
theorem cleanFrom_percentEncodeChar (cs : Charset) (c : Byte) (rest : List Byte) :
    cleanFrom cs .normal (percentEncodeChar cs c ++ rest) = c :: cleanFrom cs .normal rest := by
  unfold percentEncodeChar
  split
  · next e he =>
    have hmem := List.mem_of_find?_eq_some he
    have heq : cs.char e.1 = c := by simpa using List.find?_some he
    rw [← heq]
    exact cleanFrom_escape (fits_of_mem cs e hmem) rest
  · next hnone =>
    have hplain : isEscaped cs c = false := by
      unfold isEscaped
      rw [List.any_eq_false]
      exact List.find?_eq_none.mp hnone
    have hpercent : c ≠ cs.char '%' := by
      rintro rfl
      rw [isEscaped_percent] at hplain
      cases hplain
    have hplus : c ≠ cs.char '+' := by
      rintro rfl
      rw [isEscaped_plus] at hplain
      cases hplain
    rw [List.singleton_append, cleanFrom, if_neg hpercent, if_neg hplus]

theorem cleanFrom_percentEncode (cs : Charset) (s : List Byte) :
    cleanFrom cs .normal (s.flatMap (percentEncodeChar cs)) = s := by
  induction s with
  | nil => rfl
  | cons c s ih => rw [List.flatMap_cons, cleanFrom_percentEncodeChar, ih]

/-! Lengths -/

theorem length_percentEncodeChar (cs : Charset) (c : Byte) :
    (percentEncodeChar cs c).length = if isEscaped cs c then 3 else 1 := by
  unfold percentEncodeChar
  split
  · next e he =>
    have hescaped : isEscaped cs c = true :=
      List.any_eq_true.mpr ⟨e, List.mem_of_find?_eq_some he, by simpa using List.find?_some he⟩
    rw [if_pos hescaped]
    rfl
  · next hnone =>
    have hplain : isEscaped cs c = false := by
      unfold isEscaped
      rw [List.any_eq_false]
      exact List.find?_eq_none.mp hnone
    rw [hplain]
    rfl

theorem length_percentEncode (cs : Charset) (s : List Byte) :
    (s.flatMap (percentEncodeChar cs)).length = s.length + 2 * s.countP (isEscaped cs) := by
  induction s with
  | nil => rfl
  | cons c s ih =>
    rw [List.flatMap_cons, List.length_append, ih, length_percentEncodeChar, List.countP_cons,
      List.length_cons]
    split_ifs <;> omega

/-! Round trips -/

theorem percentEncodeChar_ne_zero {b : Byte} (hc : c ≠ 0) (hb : b ∈ percentEncodeChar cs c) :
    b ≠ 0 := by
  have hescapes : ∀ e ∈ escapes,
      cs.char '%' ≠ 0 ∧ cs.char e.2.1 ≠ 0 ∧ cs.char e.2.2 ≠ 0 := by
    cases cs with
    | ascii => decide +kernel
    | ebcdic =>
      simp only [Charset.char, Ebcdic.toIbm1047_packed]
      decide +kernel
  unfold percentEncodeChar at hb
  split at hb
  · next e he =>
    have hchars := hescapes e (List.mem_of_find?_eq_some he)
    simp only [List.mem_cons, List.not_mem_nil, or_false] at hb
    rcases hb with rfl | rfl | rfl
    · exact hchars.1
    · exact hchars.2.1
    · exact hchars.2.2
  · rw [List.mem_singleton] at hb
    exact hb ▸ hc

theorem noNul_percentEncode (hs : NoNul s) : NoNul (s.flatMap (percentEncodeChar cs)) := by
  intro b hb
  obtain ⟨c, hc, hb⟩ := List.mem_flatMap.mp hb
  exact percentEncodeChar_ne_zero (hs c hc) hb

theorem cleanURLParamValue_length_le {σ : Type} {A : Allocator σ} {b : Build}
    {slh slh' : Heap.ShortLivedHeap} {p p' : Process σ} {text cleanValue : List Byte}
    (h : cleanURLParamValue cs A b slh text p = .ok (cleanValue, slh', p')) :
    cleanValue.length ≤ text.length + 1 := by
  obtain ⟨⟨data, slh₁, p₁⟩, -, heq⟩ := Exec.bind_eq_ok.mp h
  have hle := length_cleanFrom_le cs .normal (text.take (toInt32 text.length).toNat)
  have htake := List.length_take_le' (toInt32 text.length).toNat text
  unfold pending at hle
  dsimp only at heq hle
  split at heq
  · split_ifs at heq with hinside
    rw [← (Prod.mk.inj (Except.ok.inj heq)).1, List.length_append, List.length_singleton]
    omega
  · cases heq

/-- What is returned for the encoded text has room for the string. -/
theorem cleanURLParamValue_percentEncode {σ : Type} {A : Allocator σ} {b : Build}
    {given : List Extent} {is64 : Bool} {t : Session σ} {data : ℤ} {slh : Heap.ShortLivedHeap}
    {p : Process σ} (hlen : (s.flatMap (percentEncodeChar cs)).length ≤ 2147483639)
    (ht : t.Placed A b given is64)
    (hcall : Heap.SLHAlloc A b t.slh
      (toInt32 (toInt32 (s.flatMap (percentEncodeChar cs)).length + 1)) t.process =
        .ok (some data, slh, p)) :
    cleanURLParamValue cs A b t.slh (s.flatMap (percentEncodeChar cs)) t.process =
      .ok (s ++ [0], slh, p) := by
  have hshorter : s.length ≤ (s.flatMap (percentEncodeChar cs)).length := by
    rw [length_percentEncode]
    omega
  unfold cleanURLParamValue
  generalize htext : s.flatMap (percentEncodeChar cs) = text at *
  have hint : toInt32 text.length = text.length := toInt32_of_isInt32 ⟨by omega, by omega⟩
  have hsize : toInt32 ((text.length : ℤ) + 1) = (text.length : ℤ) + 1 :=
    toInt32_of_isInt32 ⟨by omega, by omega⟩
  have hclean : cleanFrom cs .normal text = s := by rw [← htext, cleanFrom_percentEncode]
  rw [hint, hsize] at hcall
  have hplaced := ht.SLHAlloc (by omega) (by omega) hcall
  obtain ⟨elt, helt, hinside⟩ := hplaced.inBlock ⟨data, (text.length : ℤ) + 1⟩ (by simp)
  rw [hint, hsize, hcall, Int.toNat_natCast, List.take_length, hclean]
  refine if_pos ⟨elt, helt, ?_⟩
  unfold Extent.Inside Extent.stop at hinside ⊢
  rw [List.length_append, List.length_singleton]
  dsimp only at hinside ⊢
  push_cast
  omega

theorem rounded_of_long {n : ℤ} (h : 2147483640 ≤ n) (h' : n < 2147483648) :
    rounded (toInt32 (n + 1)) = -2147483648 := by
  have hvalues : n = 2147483640 ∨ n = 2147483641 ∨ n = 2147483642 ∨ n = 2147483643 ∨
      n = 2147483644 ∨ n = 2147483645 ∨ n = 2147483646 ∨ n = 2147483647 := by omega
  rcases hvalues with rfl | rfl | rfl | rfl | rfl | rfl | rfl | rfl <;> decide

/-- A heap of one block of eight bytes returns a part of it for a size that overflows. -/
theorem exists_small : ∃ t : Session Rising,
    t.Placed Rising.allocator ⟨false, false⟩ [] false ∧
    ∀ size, rounded size = -2147483648 → ∃ data slh p,
      Heap.SLHAlloc Rising.allocator ⟨false, false⟩ t.slh size t.process = .ok (some data, slh, p) ∧
      ∀ elt ∈ slh.blockChain, (room p.sizeAt elt).stop ≤ data + 8 := by
  obtain ⟨slh, p, hmake⟩ : ∃ slh p, makeShortLivedHeapInternal Rising.allocator ⟨false, false⟩ 8 1
      false ⟨Rising.empty, fun _ => 0⟩ = .ok (slh, p) := ⟨_, _, rfl⟩
  refine ⟨⟨slh, p, []⟩, (placed_makeShortLivedHeapInternal hmake).1, fun size hsize => ?_⟩
  cases hmake
  unfold Heap.SLHAlloc
  rw [hsize]
  exact ⟨_, _, _, rfl, by decide⟩

/-- A text of almost `INT_MAX` characters goes to storage that is too small for it. -/
theorem not_urlRoundTrips_of_long (h : 2147483639 < s.length + 2 * s.countP (isEscaped cs)) :
    ¬UrlRoundTrips cs s := by
  rintro ⟨⟨text, -, hencode, hback⟩, -⟩
  have hcount := s.countP_le_length (p := isEscaped cs)
  unfold percentEncode at hencode
  dsimp only at hencode
  split_ifs at hencode with hint
  have htext : s.flatMap (percentEncodeChar cs) = text :=
    List.append_cancel_right (Prod.mk.inj (Except.ok.inj hencode)).1
  have hlength : text.length = s.length + 2 * s.countP (isEscaped cs) := by
    rw [← htext, length_percentEncode]
  rw [htext] at hint
  have hrange := isInt32_toInt32 (text.length : ℤ)
  rw [hint] at hrange
  obtain ⟨t, ht, hsmall⟩ := exists_small
  obtain ⟨data, slh, p, hcall, hroom⟩ := hsmall (toInt32 (toInt32 text.length + 1)) (by
    rw [hint]
    exact rounded_of_long (by omega) hrange.2)
  have hclean := hback Rising.allocator ⟨false, false⟩ [] false t ht data slh p hcall
  obtain ⟨⟨data', slh', p'⟩, hcall', heq⟩ := Exec.bind_eq_ok.mp hclean
  cases hcall.symm.trans hcall'
  dsimp only at heq
  split_ifs at heq with hinside
  obtain ⟨elt, helt, hinside⟩ := hinside
  have hstop := hroom elt helt
  rw [hint, Int.toNat_natCast, List.take_length, ← htext, cleanFrom_percentEncode,
    List.length_append, List.length_singleton] at hinside
  unfold Extent.Inside at hinside
  unfold Extent.stop at hinside hstop
  dsimp only at hinside
  omega

/-- A string comes back if and only if its encoded text is shorter than `INT_MAX - 7`. -/
theorem urlRoundTrips_iff (hs : NoNul s) :
    UrlRoundTrips cs s ↔ s.length + 2 * s.countP (isEscaped cs) ≤ 2147483639 := by
  constructor
  · intro h
    by_contra hlong
    exact not_urlRoundTrips_of_long (by omega) h
  · intro hlen
    rw [← length_percentEncode] at hlen
    refine ⟨⟨s.flatMap (percentEncodeChar cs), noNul_percentEncode hs, ?_, ?_⟩, ?_⟩
    · unfold percentEncode
      exact if_pos (toInt32_of_isInt32 ⟨by omega, by omega⟩)
    · intro σ A b given is64 t ht data slh p hcall
      exact cleanURLParamValue_percentEncode hlen ht hcall
    · intro σ A b slh p text cleanValue slh' p' hcall
      exact cleanURLParamValue_length_le hcall

end

/-- A query parameter. -/
theorem urlRoundTrips_query : UrlRoundTrips .ascii [0x61, 0x3D, 0x31, 0x30, 0x25] :=
  (urlRoundTrips_iff (by unfold NoNul; decide)).mpr (by decide)

/-- Blanks, that take three characters each. -/
theorem not_urlRoundTrips_blanks : ¬UrlRoundTrips .ascii (List.replicate 715827880 0x20) := by
  apply not_urlRoundTrips_of_long
  rw [List.countP_replicate, List.length_replicate]
  decide

end Encodings
end ZoweCommon
