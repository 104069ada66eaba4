import ZoweCommon.Http.RequestHeaders
import ZoweCommon.Http.SessionTokenUser

/-! Cookies by name, from the header of a request. -/
namespace ZoweCommon
namespace Http

open CLibrary (isspace)
open Ebcdic (literal)
open Utils

def COOKIE : CString := .ofBytes (literal "Cookie")

def getRequestCookie (request : HttpRequest) (cookieName : CString) : Exec (Option CString) := do
  match ← getHeader COOKIE request.headerChain with
  | none => return none
  | some cookieHeader => getCookieValue (.ofBytes cookieHeader.nativeValue) cookieName

def IsBlank (c : Byte) : Prop := isspace (Ebcdic.toIso88591 c).toInt = true

instance : DecidablePred IsBlank := fun _ => inferInstanceAs (Decidable (_ = _))

instance : DecidablePred IsCookieName := fun name =>
  inferInstanceAs (Decidable (∀ c ∈ name.bytes,
    c ≠ SEMICOLON ∧ c ≠ EQUALS ∧ isspace (Ebcdic.toIso88591 c).toInt = false))

/-- What is between two semicolons: a name, and its value if there is an equals sign. -/
structure CookiePair where
  blanksBefore : List Byte
  name : CString
  value : Option CString
  blanksAfter : List Byte
  blank_before : ∀ c ∈ blanksBefore, IsBlank c
  blank_after : ∀ c ∈ blanksAfter, IsBlank c
  isName : IsCookieName name
  isValue : ∀ v ∈ value, IsCookieName v

namespace CookiePair

def valueText : Option CString → List Byte
  | none => []
  | some value => EQUALS :: value.bytes

def text (pair : CookiePair) : List Byte :=
  pair.blanksBefore ++ (pair.name.bytes ++ valueText pair.value ++ pair.blanksAfter)

def begins (cookieName : CString) (pair : CookiePair) : Bool :=
  pair.value.isSome && pair.name.bytes.isPrefixOf cookieName.bytes

end CookiePair

def pairsText (pairs : List CookiePair) : List Byte :=
  [SEMICOLON].intercalate (pairs.map CookiePair.text)

def valueOf (cookieName : CString) (pairs : List CookiePair) : Option CString :=
  pairs.findSome? fun pair => if pair.name = cookieName then pair.value else none

def beginningPair (cookieName : CString) (pairs : List CookiePair) : Option CookiePair :=
  pairs.find? (CookiePair.begins cookieName)

/-- No name of a pair before it is the beginning of the cookie's name, or it has the same value;
nor do blanks follow. -/
def Distinct (cookieName : CString) (pairs : List CookiePair) : Prop :=
  ∀ pair ∈ beginningPair cookieName pairs,
    pair.blanksAfter = [] ∧ valueOf cookieName pairs = pair.value

section Characters

theorem IsBlank.facts {c : Byte} (h : IsBlank c) : c ≠ 0 ∧ c ≠ SEMICOLON ∧ c ≠ EQUALS := by
  refine ⟨?_, ?_, ?_⟩ <;> intro hc <;> rw [hc] at h <;> exact absurd h (by decide)

end Characters

section Search

variable {cookieText cookieName : CString} {pos : ℕ}

theorem getElem?_of_drop {c : Byte} {rest : List Byte} (h : cookieText.bytes.drop pos = c :: rest) :
    cookieText.bytes[pos]? = some c := by
  have hat := @List.getElem?_drop _ cookieText.bytes pos 0
  rw [h] at hat
  simpa using hat.symm

theorem drop_add {before rest : List Byte} (h : cookieText.bytes.drop pos = before ++ rest) :
    cookieText.bytes.drop (pos + before.length) = rest := by
  rw [← List.drop_drop, h, List.drop_left]

/-- Where the pair at a position ends, and what is left after it. -/
theorem keyValuePair_eq {part tail : List Byte} (h : cookieText.bytes.drop pos = part ++ tail)
    (hne : part ++ tail ≠ []) (hpart : SEMICOLON ∉ part)
    (htail : ∀ c ∈ tail.head?, c = SEMICOLON) :
    ∃ nextPos, keyValuePair cookieText pos = (part.length, nextPos) ∧
      cookieText.bytes.drop nextPos = tail.tail := by
  unfold keyValuePair
  rw [indexOf_from, h]
  cases tail with
  | nil =>
    have hlength := congrArg List.length h
    have hpos := List.length_pos_iff.mpr hne
    rw [List.length_drop, List.append_nil] at hlength
    have hnone : Utils.indexOf (part ++ []) SEMICOLON 0 = none := by
      cases hindex : Utils.indexOf (part ++ []) SEMICOLON 0 with
      | none => rfl
      | some semiPos =>
        obtain ⟨before, after, hsplit, -, -⟩ := indexOf_zero_some hindex
        rw [List.append_nil] at hsplit
        rw [hsplit] at hpart
        exact absurd (List.mem_append_right _ List.mem_cons_self) hpart
    rw [hnone]
    refine ⟨cookieText.strlen, ?_, List.drop_length⟩
    unfold CString.strlen
    rw [← hlength]
    rfl
  | cons c rest =>
    have hc : c = SEMICOLON := htail c rfl
    rw [hc] at h ⊢
    rw [indexOf_append hpart]
    refine ⟨pos + part.length + 1, ?_, ?_⟩
    · dsimp only [Option.map_some]
      rw [Nat.add_sub_cancel_left]
    · rw [← List.drop_drop, drop_add h]
      rfl

theorem findCookie_end (h : cookieText.bytes.drop pos = []) (fuel : ℕ) :
    findCookie cookieText cookieName (fuel + 1) pos = .ok none := by
  have hnone : cookieText.bytes[pos]? = none :=
    List.getElem?_eq_none (List.drop_eq_nil_iff.mp h)
  rw [findCookie, hnone]
  rfl

theorem findCookie_blank {c : Byte} {rest : List Byte}
    (h : cookieText.bytes.drop pos = c :: rest) (hc : IsBlank c) (fuel : ℕ) :
    findCookie cookieText cookieName (fuel + 1) pos =
      findCookie cookieText cookieName fuel (pos + 1) := by
  rw [findCookie, getElem?_of_drop h]
  exact if_pos hc

/-- Blanks before a pair are passed over. -/
theorem findCookie_blanks {blanks rest : List Byte} (hblanks : ∀ c ∈ blanks, IsBlank c) (fuel : ℕ) :
    ∀ {pos : ℕ}, cookieText.bytes.drop pos = blanks ++ rest →
      findCookie cookieText cookieName (fuel + blanks.length) pos =
        findCookie cookieText cookieName fuel (pos + blanks.length) := by
  induction blanks with
  | nil =>
    intro pos _
    rfl
  | cons c blanks ih =>
    intro pos h
    have hc : IsBlank c := hblanks c List.mem_cons_self
    have hnext : cookieText.bytes.drop (pos + 1) = blanks ++ rest := @drop_add _ _ [c] _ h
    have hrest := ih (fun b hb => hblanks b (List.mem_cons_of_mem c hb)) hnext
    rw [List.length_cons, ← Nat.add_assoc, findCookie_blank h hc, hrest]
    congr 1
    omega

theorem findCookie_noEquals (hname : IsCookieName cookieName) {part tail : List Byte}
    (h : cookieText.bytes.drop pos = part ++ tail) (hne : part ++ tail ≠ [])
    (hfirst : ∀ c ∈ (part ++ tail).head?, ¬ IsBlank c) (hpart : SEMICOLON ∉ part)
    (hequals : EQUALS ∉ part) (htail : ∀ c ∈ tail.head?, c = SEMICOLON) (fuel : ℕ) :
    ∃ nextPos, cookieText.bytes.drop nextPos = tail.tail ∧
      findCookie cookieText cookieName (fuel + 1) pos =
        findCookie cookieText cookieName fuel nextPos := by
  obtain ⟨nextPos, hpair, hnext⟩ := keyValuePair_eq h hne hpart htail
  obtain ⟨c, rest, hcons⟩ := List.exists_cons_of_ne_nil hne
  have hc : ¬ IsBlank c := hfirst c (by rw [hcons]; rfl)
  refine ⟨nextPos, hnext, ?_⟩
  rw [findCookie, getElem?_of_drop (h.trans hcons)]
  dsimp only
  rw [if_neg (show ¬ isspace (Ebcdic.toIso88591 c).toInt = true from hc), hpair, indexOf_from, h]
  dsimp only
  cases hindex : Utils.indexOf (part ++ tail) EQUALS 0 with
  | none => rfl
  | some i =>
    obtain ⟨before, after, hsplit, hbefore, rfl⟩ := indexOf_zero_some hindex
    dsimp only [Option.map_some]
    rw [if_neg]
    rw [Nat.add_sub_cancel_left, hsplit, List.take_left]
    intro heq
    have hnoSemi : SEMICOLON ∉ before := by
      rw [heq]
      exact fun hmem => (hname _ (List.mem_of_mem_take hmem)).1 rfl
    -- the equals sign comes after the part, but not right after it
    rcases List.append_eq_append_iff.mp hsplit with ⟨more, rfl, hmore⟩ | ⟨more, rfl, hmore⟩
    · cases more with
      | nil =>
        have hhead : EQUALS = SEMICOLON := htail EQUALS (by rw [hmore]; rfl)
        exact absurd hhead (by decide)
      | cons c more =>
        have hhead : c = SEMICOLON := htail c (by rw [hmore]; rfl)
        rw [hhead] at hnoSemi
        exact hnoSemi (List.mem_append_right _ List.mem_cons_self)
    · cases more with
      | nil =>
        have hhead : EQUALS = SEMICOLON := htail EQUALS (by rw [← List.nil_append tail, ← hmore]; rfl)
        exact absurd hhead (by decide)
      | cons c more =>
        rw [(List.cons.inj hmore).1] at hequals
        exact hequals (List.mem_append_right _ List.mem_cons_self)

variable (cookieName) in
theorem findCookie_equals {name rest tail : List Byte}
    (h : cookieText.bytes.drop pos = name ++ EQUALS :: rest ++ tail)
    (hfirst : ∀ c ∈ (name ++ EQUALS :: rest ++ tail).head?, ¬ IsBlank c)
    (hname : SEMICOLON ∉ name) (hrest : SEMICOLON ∉ rest) (hequals : EQUALS ∉ name)
    (htail : ∀ c ∈ tail.head?, c = SEMICOLON) (fuel : ℕ) :
    ∃ nextPos, cookieText.bytes.drop nextPos = tail.tail ∧
      findCookie cookieText cookieName (fuel + 1) pos =
        if name <+: cookieName.bytes then .ok (some (.ofBytes rest))
        else findCookie cookieText cookieName fuel nextPos := by
  have hne : name ++ EQUALS :: rest ++ tail ≠ [] := by simp
  have hpart : SEMICOLON ∉ name ++ EQUALS :: rest := by
    intro hmem
    rcases List.mem_append.mp hmem with hmem | hmem
    · exact hname hmem
    · rcases List.mem_cons.mp hmem with heq | hmem
      · exact absurd heq (by decide)
      · exact hrest hmem
  obtain ⟨nextPos, hpair, hnext⟩ := keyValuePair_eq h hne hpart htail
  obtain ⟨c, more, hcons⟩ := List.exists_cons_of_ne_nil hne
  have hc : ¬ IsBlank c := hfirst c (by rw [hcons]; rfl)
  have hassoc : name ++ EQUALS :: rest ++ tail = name ++ EQUALS :: (rest ++ tail) := by
    rw [List.append_assoc]
    rfl
  have hafter : cookieText.bytes.drop (pos + name.length + 1) = rest ++ tail := by
    rw [hassoc] at h
    rw [← List.drop_drop, drop_add h]
    rfl
  refine ⟨nextPos, hnext, ?_⟩
  rw [findCookie, getElem?_of_drop (h.trans hcons)]
  dsimp only
  rw [if_neg (show ¬ isspace (Ebcdic.toIso88591 c).toInt = true from hc), hpair, indexOf_from, h,
    hassoc, indexOf_append hequals]
  dsimp only [Option.map_some]
  rw [Nat.add_sub_cancel_left, List.take_left]
  by_cases hbegins : name <+: cookieName.bytes
  · have hlength : pos + (name ++ EQUALS :: rest).length - (pos + name.length + 1) = rest.length := by
      rw [List.length_append, List.length_cons]
      omega
    rw [if_pos (List.prefix_iff_eq_take.mp hbegins), if_pos hbegins, hlength, hafter,
      List.take_left, if_pos]
    · rfl
    · rw [List.length_append, List.length_cons]
      omega
  · rw [if_neg hbegins, if_neg fun heq => hbegins (List.prefix_iff_eq_take.mpr heq)]

variable (cookieName) in
theorem findCookie_skip {blanks rest : List Byte} (hblanks : ∀ c ∈ blanks, IsBlank c)
    (h : cookieText.bytes.drop pos = blanks ++ rest) {fuel : ℕ}
    (hfuel : (blanks ++ rest).length < fuel) :
    ∃ fuel', rest.length ≤ fuel' ∧ findCookie cookieText cookieName fuel pos =
      findCookie cookieText cookieName (fuel' + 1) (pos + blanks.length) := by
  rw [List.length_append] at hfuel
  refine ⟨fuel - blanks.length - 1, by omega, ?_⟩
  rw [← findCookie_blanks hblanks (fuel - blanks.length - 1 + 1) h]
  congr 1
  omega

end Search

section Pairs

variable {cookieText cookieName : CString}

def CookiePair.taken (pair : CookiePair) : Option CString :=
  pair.value.map fun value => .ofBytes (value.bytes ++ pair.blanksAfter)

theorem pairsText_cons (pair : CookiePair) (pairs : List CookiePair) :
    ∃ tail, pairsText (pair :: pairs) = pair.text ++ tail ∧ tail.tail = pairsText pairs ∧
      ∀ c ∈ tail.head?, c = SEMICOLON := by
  cases pairs with
  | nil => exact ⟨[], rfl, rfl, nofun⟩
  | cons next pairs =>
    refine ⟨SEMICOLON :: pairsText (next :: pairs), ?_, rfl, ?_⟩
    · unfold pairsText
      rw [List.map_cons, List.map_cons, List.intercalate_cons_cons, List.append_assoc]
      rfl
    · intro c hc
      exact (Option.some.inj hc).symm

theorem semicolon_notMem {name : CString} {blanks : List Byte} (hname : IsCookieName name)
    (hblanks : ∀ c ∈ blanks, IsBlank c) :
    SEMICOLON ∉ name.bytes ++ blanks ∧ EQUALS ∉ name.bytes ++ blanks := by
  constructor <;> intro hmem <;> rcases List.mem_append.mp hmem with hmem | hmem
  · exact (hname _ hmem).1 rfl
  · exact (hblanks _ hmem).facts.2.1 rfl
  · exact (hname _ hmem).2.1 rfl
  · exact (hblanks _ hmem).facts.2.2 rfl

theorem IsCookieName.not_isBlank {name : CString} (hname : IsCookieName name) {c : Byte}
    (hc : c ∈ name.bytes) : ¬ IsBlank c := by
  have hspace := (hname c hc).2.2
  unfold IsBlank
  rw [hspace]
  exact Bool.false_ne_true

theorem not_isBlank_head {name : CString} (hname : IsCookieName name) {rest : List Byte}
    (hrest : ∀ c ∈ rest.head?, ¬ IsBlank c) : ∀ c ∈ (name.bytes ++ rest).head?, ¬ IsBlank c := by
  intro c hc
  cases hbytes : name.bytes with
  | nil =>
    rw [hbytes] at hc
    exact hrest c hc
  | cons b bytes =>
    rw [hbytes] at hc
    apply hname.not_isBlank
    rw [hbytes, ← Option.some.inj hc]
    exact List.mem_cons_self

theorem tail_length_lt {part tail : List Byte} {fuel : ℕ} (hne : part ++ tail ≠ [])
    (h : (part ++ tail).length ≤ fuel) : tail.tail.length < fuel := by
  have hpos := List.length_pos_iff.mpr hne
  rw [List.length_append] at hpos h
  rw [List.length_tail]
  omega

theorem findCookie_pair_none (hname : IsCookieName cookieName) {name : CString}
    (hpair : IsCookieName name) {blanks tail : List Byte} (hblanks : ∀ c ∈ blanks, IsBlank c)
    (htail : ∀ c ∈ tail.head?, c = SEMICOLON) {pos : ℕ}
    (h : cookieText.bytes.drop pos = name.bytes ++ blanks ++ tail) {fuel : ℕ}
    (hfuel : (name.bytes ++ blanks ++ tail).length < fuel) :
    ∃ fuel' nextPos, tail.tail.length < fuel' ∧ cookieText.bytes.drop nextPos = tail.tail ∧
      findCookie cookieText cookieName fuel pos = findCookie cookieText cookieName fuel' nextPos := by
  have htailBlank : ∀ c ∈ tail.head?, ¬ IsBlank c := by
    intro c hc hblank
    exact hblank.facts.2.1 (htail c hc)
  cases hbytes : name.bytes with
  | nil =>
    -- the blanks are passed over one by one
    rw [hbytes, List.nil_append] at h hfuel
    obtain ⟨fuel', hle, hskip⟩ := findCookie_skip cookieName hblanks h hfuel
    have hdrop := drop_add h
    by_cases hne : tail = []
    · rw [hne] at hdrop hle ⊢
      exact ⟨fuel' + 1, _, Nat.succ_pos fuel', hdrop, hskip⟩
    · obtain ⟨nextPos, hnext, hrun⟩ := @findCookie_noEquals _ _ _ hname [] tail hdrop hne htailBlank
        List.not_mem_nil List.not_mem_nil htail fuel'
      exact ⟨fuel', nextPos, @tail_length_lt [] tail fuel' hne hle, hnext, hskip.trans hrun⟩
  | cons c bytes =>
    have hne : name.bytes ++ blanks ++ tail ≠ [] := by
      rw [hbytes]
      exact List.cons_ne_nil _ _
    have hfirst : ∀ c ∈ (name.bytes ++ blanks ++ tail).head?, ¬ IsBlank c := by
      intro b hb
      rw [hbytes] at hb
      have hmem : b ∈ name.bytes := by
        rw [hbytes, ← Option.some.inj hb]
        exact List.mem_cons_self
      exact hpair.not_isBlank hmem
    obtain ⟨hsemi, hequals⟩ := semicolon_notMem hpair hblanks
    obtain ⟨fuel', rfl⟩ := Nat.exists_eq_succ_of_ne_zero (show fuel ≠ 0 by omega)
    obtain ⟨nextPos, hnext, hrun⟩ := findCookie_noEquals hname h hne hfirst hsemi hequals htail fuel'
    exact ⟨fuel', nextPos, tail_length_lt hne (Nat.le_of_lt_succ hfuel), hnext, hrun⟩

theorem findCookie_pair (hname : IsCookieName cookieName) (pair : CookiePair) {tail : List Byte}
    (htail : ∀ c ∈ tail.head?, c = SEMICOLON) {pos : ℕ}
    (h : cookieText.bytes.drop pos = pair.text ++ tail) {fuel : ℕ}
    (hfuel : (pair.text ++ tail).length < fuel) :
    ∃ fuel' nextPos, tail.tail.length < fuel' ∧ cookieText.bytes.drop nextPos = tail.tail ∧
      findCookie cookieText cookieName fuel pos =
        if pair.begins cookieName then .ok pair.taken
        else findCookie cookieText cookieName fuel' nextPos := by
  unfold CookiePair.text at h hfuel
  rw [List.append_assoc] at h hfuel
  obtain ⟨fuel₁, hle, hskip⟩ := findCookie_skip cookieName pair.blank_before h hfuel
  have hdrop := drop_add h
  unfold CookiePair.begins CookiePair.taken
  cases hvalue : pair.value with
  | none =>
    rw [hvalue] at hdrop hle
    unfold CookiePair.valueText at hdrop hle
    rw [List.append_nil] at hdrop hle
    obtain ⟨fuel', nextPos, hlt, hnext, hrun⟩ := findCookie_pair_none hname pair.isName
      pair.blank_after htail hdrop (Nat.lt_succ_of_le hle)
    exact ⟨fuel', nextPos, hlt, hnext, hskip.trans hrun⟩
  | some value =>
    have hassoc : pair.name.bytes ++ CookiePair.valueText pair.value ++ pair.blanksAfter ++ tail =
        pair.name.bytes ++ EQUALS :: (value.bytes ++ pair.blanksAfter) ++ tail := by
      rw [hvalue]
      unfold CookiePair.valueText
      simp
    rw [hassoc] at hdrop hle
    have hfirst : ∀ c ∈ (pair.name.bytes ++
        (EQUALS :: (value.bytes ++ pair.blanksAfter) ++ tail)).head?, ¬ IsBlank c := by
      apply not_isBlank_head pair.isName
      intro c hc hblank
      exact hblank.facts.2.2 (Option.some.inj hc).symm
    rw [← List.append_assoc] at hfirst
    obtain ⟨nextPos, hnext, hrun⟩ := findCookie_equals cookieName hdrop hfirst
      (fun hmem => (pair.isName _ hmem).1 rfl)
      (semicolon_notMem (pair.isValue value hvalue) pair.blank_after).1
      (fun hmem => (pair.isName _ hmem).2.1 rfl) htail fuel₁
    refine ⟨fuel₁, nextPos, tail_length_lt (by simp) hle, hnext, hskip.trans (hrun.trans ?_)⟩
    simp

/-- The search over all pairs. -/
theorem findCookie_pairs (hname : IsCookieName cookieName) (pairs : List CookiePair) :
    ∀ {fuel pos : ℕ}, cookieText.bytes.drop pos = pairsText pairs →
      (pairsText pairs).length < fuel →
      findCookie cookieText cookieName fuel pos =
        .ok ((beginningPair cookieName pairs).bind CookiePair.taken) := by
  induction pairs with
  | nil =>
    intro fuel pos h hfuel
    obtain ⟨fuel', rfl⟩ := Nat.exists_eq_succ_of_ne_zero (show fuel ≠ 0 by omega)
    exact findCookie_end h fuel'
  | cons pair pairs ih =>
    intro fuel pos h hfuel
    obtain ⟨tail, htext, hrest, htail⟩ := pairsText_cons pair pairs
    rw [htext] at h hfuel
    obtain ⟨fuel', nextPos, hlt, hnext, hrun⟩ := findCookie_pair hname pair htail h hfuel
    rw [hrest] at hlt hnext
    rw [hrun, ih hnext hlt]
    unfold beginningPair
    by_cases hbegins : pair.begins cookieName
    · rw [if_pos hbegins, List.find?_cons_of_pos hbegins]
      rfl
    · rw [if_neg hbegins, List.find?_cons_of_neg hbegins]

theorem getCookieValue_pairs (hname : IsCookieName cookieName) {pairs : List CookiePair}
    (htext : cookieText.bytes = pairsText pairs) :
    getCookieValue cookieText cookieName =
      .ok ((beginningPair cookieName pairs).bind CookiePair.taken) := by
  unfold getCookieValue
  apply findCookie_pairs hname
  · exact htext
  · rw [← htext]
    exact Nat.lt_succ_self _

theorem beginningPair_none {pairs : List CookiePair} (h : beginningPair cookieName pairs = none) :
    valueOf cookieName pairs = none := by
  unfold valueOf
  rw [List.findSome?_eq_none_iff]
  intro pair hmem
  split_ifs with hsame
  · have hbegins := List.find?_eq_none.mp h pair hmem
    cases hvalue : pair.value with
    | none => rfl
    | some value =>
      unfold CookiePair.begins at hbegins
      rw [hvalue, hsame] at hbegins
      exact absurd (by simp) hbegins
  · rfl

theorem isCookieName_valueOf {pairs : List CookiePair} {value : CString}
    (h : valueOf cookieName pairs = some value) : IsCookieName value := by
  obtain ⟨pair, -, hpair⟩ := List.exists_of_findSome?_eq_some h
  split_ifs at hpair
  exact pair.isValue value hpair

theorem noNul_taken (pair : CookiePair) (value : CString) :
    NoNul (value.bytes ++ pair.blanksAfter) :=
  value.noNul.append fun c hc => (pair.blank_after c hc).facts.1

theorem taken_iff (pairs : List CookiePair) :
    (beginningPair cookieName pairs).bind CookiePair.taken = valueOf cookieName pairs ↔
      Distinct cookieName pairs := by
  unfold Distinct
  cases hfirst : beginningPair cookieName pairs with
  | none =>
    rw [beginningPair_none hfirst]
    exact ⟨fun _ => nofun, fun _ => rfl⟩
  | some pair =>
    have hbegins := List.find?_some hfirst
    unfold CookiePair.begins at hbegins
    obtain ⟨value, hvalue⟩ := Option.isSome_iff_exists.mp (Bool.and_eq_true_iff.mp hbegins).1
    have htaken : pair.taken = some (.ofBytes (value.bytes ++ pair.blanksAfter)) := by
      unfold CookiePair.taken
      rw [hvalue]
      rfl
    rw [Option.bind_some, htaken]
    constructor
    · intro h other hother
      cases hother
      have hbytes := CString.ofBytes_of_noNul (noNul_taken pair value)
      have hname := isCookieName_valueOf h.symm
      have hnone : pair.blanksAfter = [] := by
        apply List.eq_nil_iff_forall_not_mem.mpr
        intro c hc
        apply hname.not_isBlank (c := c) _ (pair.blank_after c hc)
        rw [hbytes]
        exact List.mem_append_right _ hc
      refine ⟨hnone, ?_⟩
      rw [← h, hvalue, hnone, List.append_nil, CString.ofBytes_bytes]
    · intro h
      obtain ⟨hnone, hsame⟩ := h pair rfl
      rw [hsame, hvalue, hnone, List.append_nil, CString.ofBytes_bytes]

end Pairs

section Request

variable {request : HttpRequest} {cookieHeader : HttpHeader} {pairs : List CookiePair}
  {cookieName : CString}

/-- A cookie is found by its whole name when no other name is mistaken for it. -/
theorem cookieByName_iff (hheader : getHeader COOKIE request.headerChain = .ok (some cookieHeader))
    (htext : (CString.ofBytes cookieHeader.nativeValue).bytes = pairsText pairs)
    (hname : IsCookieName cookieName) :
    getRequestCookie request cookieName = .ok (valueOf cookieName pairs) ↔
      Distinct cookieName pairs := by
  unfold getRequestCookie
  rw [hheader, Exec.ok_bind]
  dsimp only
  rw [getCookieValue_pairs hname htext, Except.ok.injEq]
  exact taken_iff pairs

def SESSION_TOKEN_COOKIE_NAME : CString := .ofBytes (literal "jedHTTPSession")

def sessionPair (name value : CString) (hname : IsCookieName name) (hvalue : IsCookieName value) :
    CookiePair where
  blanksBefore := [0x40]
  name
  value := some value
  blanksAfter := []
  blank_before := by decide
  blank_after := by decide
  isName := hname
  isValue v hv := Option.some.inj hv ▸ hvalue

def sessionPairs (other : CString) (hother : IsCookieName other) : List CookiePair :=
  [sessionPair other (.ofBytes (literal "1")) hother (by decide),
    sessionPair SESSION_TOKEN_COOKIE_NAME (.ofBytes (literal "2")) (by decide) (by decide)]

def sessionRequest (pairs : List CookiePair) : HttpRequest where
  method := []
  uri := []
  headerChain := [⟨[], literal "Cookie", [], pairsText pairs⟩]
  isWebSocket := false
  keepAlive := false

theorem getHeader_sessionRequest (pairs : List CookiePair) :
    getHeader COOKIE (sessionRequest pairs).headerChain =
      .ok (some ⟨[], literal "Cookie", [], pairsText pairs⟩) := by
  rfl

/-- The name `k` is no beginning of the session's. -/
theorem cookieByName_session :
    getRequestCookie (sessionRequest (sessionPairs (.ofBytes (literal "k")) (by decide)))
        SESSION_TOKEN_COOKIE_NAME =
      .ok (valueOf SESSION_TOKEN_COOKIE_NAME (sessionPairs (.ofBytes (literal "k")) (by decide))) := by
  apply (cookieByName_iff (getHeader_sessionRequest _) (CString.ofBytes_of_noNul _) _).mpr
  · intro pair hpair
    have hfirst : beginningPair SESSION_TOKEN_COOKIE_NAME
        (sessionPairs (.ofBytes (literal "k")) (by decide)) =
      some (sessionPair SESSION_TOKEN_COOKIE_NAME (.ofBytes (literal "2")) (by decide) (by decide)) :=
      rfl
    rw [hfirst] at hpair
    cases hpair
    exact ⟨rfl, rfl⟩
  · decide
  · decide

/-- The name `j` is the beginning of the session's. -/
theorem not_cookieByName :
    getRequestCookie (sessionRequest (sessionPairs (.ofBytes (literal "j")) (by decide)))
        SESSION_TOKEN_COOKIE_NAME ≠
      .ok (valueOf SESSION_TOKEN_COOKIE_NAME (sessionPairs (.ofBytes (literal "j")) (by decide))) := by
  have htaken : getRequestCookie (sessionRequest (sessionPairs (.ofBytes (literal "j")) (by decide)))
      SESSION_TOKEN_COOKIE_NAME = .ok (some (.ofBytes (literal "1"))) := by
    unfold getRequestCookie
    rw [getHeader_sessionRequest, Exec.ok_bind]
    dsimp only
    rw [getCookieValue_pairs (by decide) (CString.ofBytes_of_noNul (by decide))]
    rfl
  rw [htaken]
  decide

end Request

end Http
end ZoweCommon
