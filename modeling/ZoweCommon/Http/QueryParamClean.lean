import ZoweCommon.Http.QueryParam

/-! Which values are cleaned as they should be. -/
namespace ZoweCommon
namespace Http
namespace QueryParam

open Ebcdic PercentEncoding
open Hexadecimal (digit?)

/-! Native text -/

/-- Blanks stand for characters that are not printed. -/
def nativeByte (c : Byte) : Byte := if 0x20 ≤ c ∧ c < 0x7F then toIbm1047 c else nativeBlank

def IsAscii (text : List Byte) : Prop := ∀ c ∈ text, 1 ≤ c ∧ c < 0x80

instance : DecidablePred IsAscii :=
  fun text => inferInstanceAs (Decidable (∀ c ∈ text, 1 ≤ c ∧ c < 0x80))

def nativeText (text : List Byte) : Option (List Byte) :=
  if IsAscii text then some (text.map nativeByte) else none

section Byte

theorem asciiChar_toNat {c : Byte} (h : c < 0x80) : asciiChar c.toNat = nativeByte c := by
  rw [asciiChar, nativeByte, BitVec.ofNat_toNat, BitVec.setWidth_eq]
  have hlow : 0x20 ≤ c ↔ 0x20 ≤ c.toNat := BitVec.le_def
  have hhigh : c < 0x7F ↔ c.toNat < 0x7F := BitVec.lt_def
  have hlt : c.toNat < 0x80 := BitVec.lt_def.mp h
  simp only [hlow, hhigh, if_pos hlt]
  rfl

theorem unasciify_eq {c : Byte} (h : 1 ≤ c ∧ c < 0x80) : unasciify c = .ok (nativeByte c) := by
  have hle : c.toNat ≤ 0x80 := (BitVec.lt_def.mp h.2).le
  rw [unasciify, getElem?_asciiTable, if_pos hle, asciiChar_toNat h.2]
  split_ifs with hdollar hpercent
  · rw [hdollar]
    decide
  · rw [hpercent]
    decide
  · rfl

theorem unasciify_last : unasciify 0x80 = .ok 0 := by
  rw [unasciify, getElem?_asciiTable]
  rfl

theorem unasciify_beyond {c : Byte} (h : 0x80 < c) : unasciify c = .error .undefinedBehaviour := by
  have hnot : ¬ c.toNat ≤ 0x80 := Nat.not_le.mpr (BitVec.lt_def.mp h)
  have hdollar : c ≠ 0x24 := by
    rintro rfl
    exact absurd h (by decide)
  have hpercent : c ≠ 0x25 := by
    rintro rfl
    exact absurd h (by decide)
  rw [unasciify, if_neg hdollar, if_neg hpercent, getElem?_asciiTable, if_neg hnot]
  rfl

/-- Which native characters the parser of a value stops at. -/
theorem nativeByte_table (c : Byte) : nativeByte c ≠ 0 ∧
    (nativeByte c = nativePercent ↔ c = PERCENT) ∧ (nativeByte c = nativePlus ↔ c = PLUS) ∧
    ((native0 + 2 ≤ nativeByte c ∧ nativeByte c ≤ native0 + 7) ↔ 0x32 ≤ c ∧ c ≤ 0x37) := by
  have hall : ∀ c : Byte, nativeByte c ≠ 0 ∧
      (nativeByte c = nativePercent ↔ c = PERCENT) ∧ (nativeByte c = nativePlus ↔ c = PLUS) ∧
      ((native0 + 2 ≤ nativeByte c ∧ nativeByte c ≤ native0 + 7) ↔ 0x32 ≤ c ∧ c ≤ 0x37) := by
    simp only [nativeByte, toIbm1047_packed]
    decide +kernel
  exact hall c

theorem nativeByte_ne_zero {c : Byte} : nativeByte c ≠ 0 := (nativeByte_table c).1

theorem nativeByte_percent {c : Byte} : nativeByte c = nativePercent ↔ c = PERCENT :=
  (nativeByte_table c).2.1

theorem nativeByte_plus {c : Byte} : nativeByte c = nativePlus ↔ c = PLUS :=
  (nativeByte_table c).2.2.1

theorem nativeByte_high {c : Byte} :
    (native0 + 2 ≤ nativeByte c ∧ nativeByte c ≤ native0 + 7) ↔ 0x32 ≤ c ∧ c ≤ 0x37 :=
  (nativeByte_table c).2.2.2

theorem nativeByte_low {c : Byte} :
    digit? c =
      if native0 ≤ nativeByte c ∧ nativeByte c ≤ native0 + 9 then
        some (nativeByte c - native0).toNat
      else if nativeSmallA ≤ nativeByte c ∧ nativeByte c ≤ nativeSmallA + 5 then
        some (10 + (nativeByte c - nativeSmallA).toNat)
      else if nativeA ≤ nativeByte c ∧ nativeByte c ≤ nativeA + 5 then
        some (10 + (nativeByte c - nativeA).toNat)
      else none := by
  have hall : ∀ c : Byte, digit? c =
      if native0 ≤ nativeByte c ∧ nativeByte c ≤ native0 + 9 then
        some (nativeByte c - native0).toNat
      else if nativeSmallA ≤ nativeByte c ∧ nativeByte c ≤ nativeSmallA + 5 then
        some (10 + (nativeByte c - nativeSmallA).toNat)
      else if nativeA ≤ nativeByte c ∧ nativeByte c ≤ nativeA + 5 then
        some (10 + (nativeByte c - nativeA).toNat)
      else none := by
    simp only [nativeByte, toIbm1047_packed]
    decide +kernel
  exact hall c

theorem asciiAt_eq {high : Byte} (h : 0x32 ≤ high ∧ high ≤ 0x37) {k : ℕ} (hk : k < 16) :
    ∃ a, digit? high = some a ∧ 1 ≤ BitVec.ofNat 8 (16 * a + k) ∧
      BitVec.ofNat 8 (16 * a + k) < 0x80 ∧
      asciiAt (nativeByte high - native0).toNat k = nativeByte (BitVec.ofNat 8 (16 * a + k)) := by
  have hall : ∀ high : Byte, 0x32 ≤ high ∧ high ≤ 0x37 → ∀ k < 16,
      digit? high = some (high.toNat - 0x30) ∧
      1 ≤ BitVec.ofNat 8 (16 * (high.toNat - 0x30) + k) ∧
      BitVec.ofNat 8 (16 * (high.toNat - 0x30) + k) < 0x80 ∧
      asciiAt (nativeByte high - native0).toNat k =
        nativeByte (BitVec.ofNat 8 (16 * (high.toNat - 0x30) + k)) := by
    simp only [asciiAt, getD_asciiTable, asciiChar_packed, nativeByte, toIbm1047_packed]
    decide +kernel
  exact ⟨high.toNat - 0x30, hall high h k hk⟩

theorem digit?_lt {c : Byte} {k : ℕ} (h : digit? c = some k) : k < 16 := by
  unfold digit? at h
  split_ifs at h with hdecimal hsmall hcapital
  all_goals
    have hvalue := Option.some.inj h
    omega

end Byte

/-! Cleaning and decoding -/

/-- What may follow a percent sign: an escape of a character of ASCII that is printed (or the last
one), or what is no escape and has no blank soon, and is not cut off. -/
structure Proper (rest : List Byte) : Prop where
  ne_nil : rest ≠ []
  not_plus : ∀ more, rest ≠ PLUS :: more
  not_cut : ∀ high : Byte, 0x32 ≤ high ∧ high ≤ 0x37 → rest ≠ [high]
  not_high_plus : ∀ (high : Byte) more, 0x32 ≤ high ∧ high ≤ 0x37 → rest ≠ high :: PLUS :: more
  escape : ∀ high low more, rest = high :: low :: more → (escape? high low).isSome →
    0x32 ≤ high ∧ high ≤ 0x37

/-- Every percent sign is followed by what may follow it. -/
def ProperEscapes (value : List Byte) : Prop :=
  ∀ before rest, value = before ++ PERCENT :: rest → Proper rest

theorem properEscapes_cons {c : Byte} {value : List Byte} :
    ProperEscapes (c :: value) ↔ (c = PERCENT → Proper value) ∧ ProperEscapes value := by
  constructor
  · intro h
    refine ⟨?_, fun before rest hvalue => h (c :: before) rest (by rw [hvalue]; rfl)⟩
    rintro rfl
    exact h [] value rfl
  · rintro ⟨hhead, htail⟩ before rest hvalue
    cases before with
    | nil =>
      obtain ⟨hc, rfl⟩ := List.cons.inj hvalue
      exact hhead hc
    | cons d before =>
      obtain ⟨-, rfl⟩ := List.cons.inj hvalue
      exact htail before rest rfl

def CleansRight (value : List Byte) : Prop :=
  nativeText (decode value) = some (cleanFrom .normal (value.map nativeByte))

section Clean

variable {c high low : Byte} {value : List Byte} {text cleaned : List Byte}

theorem isAscii_cons : IsAscii (c :: text) ↔ (1 ≤ c ∧ c < 0x80) ∧ IsAscii text :=
  List.forall_mem_cons

theorem nativeText_cons_iff (hc : 1 ≤ c ∧ c < 0x80) :
    nativeText (c :: text) = some (nativeByte c :: cleaned) ↔ nativeText text = some cleaned := by
  unfold nativeText
  by_cases h : IsAscii text
  · rw [if_pos h, if_pos (isAscii_cons.mpr ⟨hc, h⟩)]
    simp
  · rw [if_neg h, if_neg (fun hcons => h (isAscii_cons.mp hcons).2)]
    simp

theorem head_of_nativeText (h : nativeText (c :: text) = some cleaned) :
    (1 ≤ c ∧ c < 0x80) ∧ cleaned.head? = some (nativeByte c) := by
  unfold nativeText at h
  split_ifs at h with hascii
  exact ⟨(isAscii_cons.mp hascii).1, by rw [← Option.some.inj h]; rfl⟩

theorem clean_cons (h : c ≠ PERCENT) (s : List Byte) :
    cleanFrom .normal (nativeByte c :: s) = nativeByte (plain c) :: cleanFrom .normal s := by
  rw [cleanFrom, if_neg (mt nativeByte_percent.mp h)]
  by_cases hplus : c = PLUS
  · subst hplus
    rw [if_pos (nativeByte_plus.mpr rfl)]
    have hblank : nativeByte (plain PLUS) = nativeBlank := by decide
    rw [hblank]
  · rw [if_neg (mt nativeByte_plus.mp hplus), plain_of_ne hplus]

theorem clean_percent (s : List Byte) :
    cleanFrom .normal (nativeByte PERCENT :: s) = cleanFrom .percent s := by
  rw [nativeByte_percent.mpr rfl, cleanFrom_percent]

theorem percent_percent (s : List Byte) :
    cleanFrom .percent (nativeByte PERCENT :: s) = nativeByte PERCENT :: cleanFrom .percent s := by
  have hpercent := nativeByte_percent.mpr rfl
  rw [cleanFrom, if_pos hpercent, hpercent]

theorem percent_high (h : 0x32 ≤ high ∧ high ≤ 0x37) (s : List Byte) :
    cleanFrom .percent (nativeByte high :: s) = cleanFrom (.percentNumber (nativeByte high)) s := by
  have hne : high ≠ PERCENT := by
    rintro rfl
    exact absurd h (by decide)
  rw [cleanFrom, if_neg (mt nativeByte_percent.mp hne), if_pos (nativeByte_high.mpr h)]

theorem percent_other (hne : c ≠ PERCENT) (h : ¬ (0x32 ≤ c ∧ c ≤ 0x37)) (s : List Byte) :
    cleanFrom .percent (nativeByte c :: s) =
      nativeByte PERCENT :: nativeByte c :: cleanFrom .normal s := by
  rw [cleanFrom, if_neg (mt nativeByte_percent.mp hne), if_neg (mt nativeByte_high.mp h),
    nativeByte_percent.mpr rfl]

theorem number_digit {numChar : Byte} {k : ℕ} (h : digit? low = some k) (s : List Byte) :
    cleanFrom (.percentNumber numChar) (nativeByte low :: s) =
      asciiAt (numChar - native0).toNat k :: cleanFrom .normal s := by
  rw [nativeByte_low] at h
  rw [cleanFrom]
  split_ifs at h ⊢
  all_goals rw [← Option.some.inj h]

theorem number_other {numChar : Byte} (h : digit? low = none) (s : List Byte) :
    cleanFrom (.percentNumber numChar) (nativeByte low :: s) =
      if low = PERCENT then nativeByte PERCENT :: numChar :: cleanFrom .percent s
      else nativeByte PERCENT :: numChar :: nativeByte low :: cleanFrom .normal s := by
  rw [nativeByte_low] at h
  rw [cleanFrom, nativeByte_percent.mpr rfl]
  simp only [nativeByte_percent]
  split_ifs at h ⊢ <;> rfl

theorem cleansRight_cons (hascii : 1 ≤ c ∧ c < 0x80) (h : c ≠ PERCENT) :
    CleansRight (c :: value) ↔ CleansRight value := by
  have hplain : 1 ≤ plain c ∧ plain c < 0x80 := by
    unfold plain
    split_ifs
    · decide
    · exact hascii
  unfold CleansRight
  rw [decode_cons h, List.map_cons, clean_cons h]
  exact nativeText_cons_iff hplain

theorem digit?_percent : digit? PERCENT = none := by decide

theorem digit?_plus : digit? PLUS = none := by decide

theorem isAscii_percent : (1 : Byte) ≤ PERCENT ∧ PERCENT < 0x80 := by decide

theorem high_ne (h : 0x32 ≤ high ∧ high ≤ 0x37) : high ≠ PERCENT ∧ high ≠ PLUS := by
  constructor <;> rintro rfl <;> exact absurd h (by decide)

/-- A percent sign that is there for itself. -/
theorem cleansRight_noEscape
    (hno : ∀ high low more, value = high :: low :: more → escape? high low = none)
    (hclean : cleanFrom .percent (value.map nativeByte) =
      nativeByte PERCENT :: cleanFrom .normal (value.map nativeByte)) :
    CleansRight (PERCENT :: value) ↔ CleansRight value := by
  unfold CleansRight
  rw [decode_percent hno, List.map_cons, clean_percent, hclean]
  exact nativeText_cons_iff isAscii_percent

theorem cleansRight_escape (hhigh : 0x32 ≤ high ∧ high ≤ 0x37) {k : ℕ} (hlow : digit? low = some k)
    (hascii : IsAscii (high :: low :: value)) :
    CleansRight (PERCENT :: high :: low :: value) ↔ CleansRight (high :: low :: value) := by
  obtain ⟨a, ha, hpos, hlt, hat⟩ := asciiAt_eq hhigh (digit?_lt hlow)
  have hescape : escape? high low = some (BitVec.ofNat 8 (16 * a + k)) := by
    rw [escape?, ha, hlow]
  have hne : low ≠ PERCENT := by
    rintro rfl
    rw [digit?_percent] at hlow
    cases hlow
  obtain ⟨hhead, hrest⟩ := isAscii_cons.mp hascii
  rw [cleansRight_cons hhead (high_ne hhigh).1, cleansRight_cons (isAscii_cons.mp hrest).1 hne]
  unfold CleansRight
  rw [decode_escape hescape, List.map_cons, List.map_cons, List.map_cons, clean_percent,
    percent_high hhigh, number_digit hlow, hat]
  exact nativeText_cons_iff ⟨hpos, hlt⟩

theorem cleansRight_percent (hascii : IsAscii value) (h : Proper value) :
    CleansRight (PERCENT :: value) ↔ CleansRight value := by
  cases value with
  | nil => exact absurd rfl h.ne_nil
  | cons high value =>
    by_cases hpercent : high = PERCENT
    · subst hpercent
      apply cleansRight_noEscape
      · intro high low more hvalue
        obtain ⟨rfl, -⟩ := List.cons.inj hvalue
        rw [escape?, digit?_percent]
      · rw [List.map_cons, percent_percent, clean_percent]
    by_cases hhigh : 0x32 ≤ high ∧ high ≤ 0x37
    · cases value with
      | nil => exact absurd rfl (h.not_cut high hhigh)
      | cons low value =>
        cases hlow : digit? low with
        | some k => exact cleansRight_escape hhigh hlow hascii
        | none =>
          apply cleansRight_noEscape
          · intro other next more hvalue
            obtain ⟨-, hvalue⟩ := List.cons.inj hvalue
            obtain ⟨rfl, -⟩ := List.cons.inj hvalue
            rw [escape?, hlow]
            cases digit? other <;> rfl
          · rw [List.map_cons, List.map_cons, percent_high hhigh, number_other hlow,
              clean_cons hpercent, plain_of_ne (high_ne hhigh).2]
            by_cases hlowPercent : low = PERCENT
            · subst hlowPercent
              rw [if_pos rfl, clean_percent]
            · have hplus : low ≠ PLUS := by
                rintro rfl
                exact h.not_high_plus high value hhigh rfl
              rw [if_neg hlowPercent, clean_cons hlowPercent, plain_of_ne hplus]
    · have hplus : high ≠ PLUS := by
        rintro rfl
        exact h.not_plus value rfl
      apply cleansRight_noEscape
      · intro other low more hvalue
        cases hescape : escape? other low with
        | none => rfl
        | some b =>
          have hrange := h.escape other low more hvalue (by rw [hescape]; rfl)
          obtain ⟨rfl, -⟩ := List.cons.inj hvalue
          exact absurd hrange hhigh
      · rw [List.map_cons, percent_other hpercent hhigh, clean_cons hpercent, plain_of_ne hplus]

theorem digit?_of_not_high {a : ℕ} (h : digit? high = some a) (hhigh : ¬ (0x32 ≤ high ∧ high ≤ 0x37)) :
    a < 2 ∨ 7 < a := by
  have hrange : ¬ (0x32 ≤ high.toNat ∧ high.toNat ≤ 0x37) := hhigh
  unfold digit? at h
  split_ifs at h with hdecimal hsmall hcapital
  all_goals
    have hvalue := Option.some.inj h
    omega

theorem escape?_ne_percent {b : Byte} (h : escape? high low = some b)
    (hhigh : ¬ (0x32 ≤ high ∧ high ≤ 0x37)) : high ≠ PERCENT ∧ b ≠ PERCENT := by
  unfold escape? at h
  split at h
  · rename_i a k ha hk
    have harange := digit?_of_not_high ha hhigh
    have halt := digit?_lt ha
    have hklt := digit?_lt hk
    refine ⟨?_, ?_⟩
    · rintro rfl
      rw [digit?_percent] at ha
      cases ha
    · rintro rfl
      have hvalue : (BitVec.ofNat 8 (16 * a + k)).toNat = PERCENT.toNat :=
        congrArg BitVec.toNat (Option.some.inj h)
      have hpercent : PERCENT.toNat = 37 := by decide
      rw [BitVec.toNat_ofNat, hpercent] at hvalue
      omega
  · cases h

theorem nativeByte_plus_ne : nativeByte PLUS ≠ nativeByte SPACE := by decide

theorem not_cleansRight_percent (h : ¬ Proper value) : ¬ CleansRight (PERCENT :: value) := by
  intro hright
  apply h
  constructor
  · rintro rfl
    have hcut : nativeText (decode [PERCENT]) ≠ some (cleanFrom .normal [nativeByte PERCENT]) := by
      decide
    exact hcut hright
  · rintro more rfl
    unfold CleansRight at hright
    have hplus : PLUS ≠ PERCENT := by decide
    rw [decode_percent, List.map_cons, List.map_cons, clean_percent,
      percent_other hplus (by decide), decode_cons hplus, nativeText_cons_iff isAscii_percent] at hright
    · obtain ⟨-, hhead⟩ := head_of_nativeText hright
      exact nativeByte_plus_ne (Option.some.inj hhead)
    · intro high low rest hvalue
      obtain ⟨rfl, -⟩ := List.cons.inj hvalue
      rw [escape?, digit?_plus]
  · rintro high hhigh rfl
    unfold CleansRight at hright
    rw [List.map_cons, List.map_cons, clean_percent, percent_high hhigh] at hright
    obtain ⟨-, hhead⟩ := head_of_nativeText hright
    cases hhead
  · rintro high more hhigh rfl
    unfold CleansRight at hright
    have hplus : PLUS ≠ PERCENT := by decide
    obtain ⟨hnotPercent, hnotPlus⟩ := high_ne hhigh
    rw [decode_percent, List.map_cons, List.map_cons, List.map_cons, clean_percent,
      percent_high hhigh, number_other digit?_plus, if_neg hplus, decode_cons hnotPercent,
      plain_of_ne hnotPlus, decode_cons hplus, nativeText_cons_iff isAscii_percent] at hright
    · have hascii : 1 ≤ high ∧ high < 0x80 := (head_of_nativeText hright).1
      rw [nativeText_cons_iff hascii] at hright
      obtain ⟨-, hhead⟩ := head_of_nativeText hright
      exact nativeByte_plus_ne (Option.some.inj hhead)
    · intro other low rest hvalue
      obtain ⟨-, hvalue⟩ := List.cons.inj hvalue
      obtain ⟨rfl, -⟩ := List.cons.inj hvalue
      rw [escape?, digit?_plus]
      cases digit? other <;> rfl
  · rintro high low more rfl hescape
    by_contra hhigh
    obtain ⟨b, hb⟩ := Option.isSome_iff_exists.mp hescape
    obtain ⟨hnotPercent, hne⟩ := escape?_ne_percent hb hhigh
    unfold CleansRight at hright
    rw [decode_escape hb, List.map_cons, List.map_cons, clean_percent,
      percent_other hnotPercent hhigh] at hright
    obtain ⟨-, hhead⟩ := head_of_nativeText hright
    have hbyte : nativeByte b = nativePercent := by
      rw [← Option.some.inj hhead]
      exact nativeByte_percent.mpr rfl
    exact hne (nativeByte_percent.mp hbyte)

theorem cleansRight_iff (hascii : IsAscii value) : CleansRight value ↔ ProperEscapes value := by
  induction value with
  | nil =>
    refine ⟨fun _ before rest h => ?_, fun _ => rfl⟩
    exact absurd h (by simp)
  | cons c value ih =>
    obtain ⟨hc, htail⟩ := isAscii_cons.mp hascii
    rw [properEscapes_cons, ← ih htail]
    by_cases hpercent : c = PERCENT
    · subst hpercent
      by_cases hproper : Proper value
      · rw [cleansRight_percent htail hproper]
        exact ⟨fun h => ⟨fun _ => hproper, h⟩, fun h => h.2⟩
      · refine ⟨fun h => absurd h (not_cleansRight_percent hproper), fun h => ?_⟩
        exact absurd (h.1 rfl) hproper
    · rw [cleansRight_cons hc hpercent]
      exact ⟨fun h => ⟨fun hc => absurd hc hpercent, h⟩, fun h => h.2⟩

end Clean

end QueryParam
end Http
end ZoweCommon
