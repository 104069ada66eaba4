import ZoweCommon.Http.QueryParamClean

/-! Which parameters are found. -/
namespace ZoweCommon
namespace Http
namespace QueryParam

open Ebcdic PercentEncoding

/-- A name with a value that go through the buffers and are not cut by separators. -/
structure Pair where
  name : List Byte
  value : List Byte
  name_ne_nil : name ≠ []
  value_ne_nil : value ≠ []
  name_length : name.length < BUFFER_SIZE
  value_length : value.length < BUFFER_SIZE
  name_plain : ∀ c ∈ name, c ≠ 0 ∧ c ≠ ASCII_EQUALS ∧ c ≠ ASCII_AMPERSAND
  value_plain : ∀ c ∈ value, c ≠ 0 ∧ c ≠ ASCII_EQUALS ∧ c ≠ ASCII_AMPERSAND

def Pair.text (pair : Pair) : List Byte := pair.name ++ ASCII_EQUALS :: pair.value

def render : List Pair → List Byte
  | [] => []
  | [pair] => pair.text
  | pair :: next :: pairs => pair.text ++ ASCII_AMPERSAND :: render (next :: pairs)

/-- A request whose query is made of pairs. -/
structure FormRequest extends HttpRequest where
  pairs : List Pair
  queryString_eq : queryString.bytes = render pairs

def Named (paramName : CString) (pair : Pair) : Prop :=
  nativeText pair.name = some paramName.bytes

instance (paramName : CString) : DecidablePred (Named paramName) :=
  fun pair => inferInstanceAs (Decidable (nativeText pair.name = some paramName.bytes))

/-- The decoded value of the first pair of the name is found, or nothing if there is none. -/
def FindsFirstNamed (request : FormRequest) (paramName : CString) : Prop :=
  match request.pairs.find? fun pair => Named paramName pair with
  | none => getQueryParam request.toHttpRequest paramName = .ok none
  | some pair => ∃ value : CString, nativeText (decode pair.value) = some value.bytes ∧
    getQueryParam request.toHttpRequest paramName = .ok (some value)

/-! When they are found -/

/-- The bytes in the table of characters, the last of which is for the terminator. -/
def InTable (text : List Byte) : Prop := ∀ c ∈ text, c ≤ 0x80

/-- What stands before a terminator is the name. -/
def Taken (paramName : CString) (pair : Pair) : Prop :=
  nativeText (pair.name.takeWhile (· ≠ 0x80)) = some paramName.bytes

instance (paramName : CString) : DecidablePred (Taken paramName) := fun pair =>
  inferInstanceAs (Decidable (nativeText (pair.name.takeWhile (· ≠ 0x80)) = some paramName.bytes))

def IsDecodable (value : List Byte) : Prop := IsAscii value ∧ ProperEscapes value

def Coincides (taken named : Pair) : Prop :=
  ∃ value : CString, nativeText (decode named.value) = some value.bytes ∧
    getValue taken.value = .ok (some value)

/-- All names up to the first that is taken are in the table. If that is the name in full, its
value can be decoded; if it is followed by a terminator, a later pair happens to say the same. -/
def IsReadable (pairs : List Pair) (paramName : CString) : Prop :=
  (∀ pair ∈ pairs.takeWhile fun pair => ¬ Taken paramName pair, InTable pair.name) ∧
    ∀ taken, (pairs.find? fun pair => Taken paramName pair) = some taken →
      (IsAscii taken.name ∧ IsDecodable taken.value) ∨
        (InTable taken.name ∧ 0x80 ∈ taken.name ∧
          ∃ named, (pairs.find? fun pair => Named paramName pair) = some named ∧
            Coincides taken named)

section Buffers

variable {buffer text : List Byte}

theorem push_eq {c : Byte} (h : buffer.length < BUFFER_SIZE) : push buffer c = .ok (buffer ++ [c]) :=
  if_pos h

theorem terminate_eq (h : buffer.length < BUFFER_SIZE) :
    terminate buffer = do return .ofBytes (← destructivelyUnasciify buffer) := by
  rw [terminate, if_neg (Nat.not_le.mpr h)]

theorem destructivelyUnasciify_cons {c : Byte} (h : c ≠ 0) :
    destructivelyUnasciify (c :: text) = do
      let e ← unasciify c
      let es ← destructivelyUnasciify text
      return e :: es := by
  rw [destructivelyUnasciify, if_neg h]

theorem destructivelyUnasciify_ok (h0 : NoNul text) (h : InTable text) :
    ∃ native, destructivelyUnasciify text = .ok native ∧
      (CString.ofBytes native).bytes = (text.takeWhile (· ≠ 0x80)).map nativeByte := by
  induction text with
  | nil => exact ⟨[], rfl, rfl⟩
  | cons c text ih =>
    obtain ⟨hc0, htext0⟩ := List.forall_mem_cons.mp h0
    obtain ⟨hc, htext⟩ := List.forall_mem_cons.mp h
    obtain ⟨native, hnative, hbytes⟩ := ih htext0 htext
    by_cases hlast : c = 0x80
    · subst hlast
      refine ⟨0 :: native, ?_, rfl⟩
      rw [destructivelyUnasciify_cons hc0, unasciify_last, hnative]
      rfl
    · have hascii : 1 ≤ c ∧ c < 0x80 := by
        constructor
        · bv_omega
        · bv_omega
      refine ⟨nativeByte c :: native, ?_, ?_⟩
      · rw [destructivelyUnasciify_cons hc0, unasciify_eq hascii, hnative]
        rfl
      · rw [List.takeWhile_cons_of_pos (by simpa using hlast), List.map_cons, ← hbytes]
        have hne : nativeByte c ≠ 0 := nativeByte_ne_zero
        simpa [CString.ofBytes, List.takeWhile_cons] using hne

theorem destructivelyUnasciify_error (h0 : NoNul text) (h : ¬ InTable text) :
    destructivelyUnasciify text = .error .undefinedBehaviour := by
  induction text with
  | nil => exact absurd (List.forall_mem_nil _) h
  | cons c text ih =>
    obtain ⟨hc0, htext0⟩ := List.forall_mem_cons.mp h0
    rw [destructivelyUnasciify_cons hc0]
    by_cases hc : c ≤ 0x80
    · have htext : ¬ InTable text := fun htext => h (List.forall_mem_cons.mpr ⟨hc, htext⟩)
      rw [ih htext0 htext]
      by_cases hlast : c = 0x80
      · rw [hlast, unasciify_last]
        rfl
      · have hascii : 1 ≤ c ∧ c < 0x80 := by
          constructor
          · bv_omega
          · bv_omega
        rw [unasciify_eq hascii]
        rfl
    · have hbeyond : 0x80 < c := by bv_omega
      rw [unasciify_beyond hbeyond]
      rfl

end Buffers

section Scan

variable {paramName : CString} {paramNameBuffer paramValueBuffer text rest : List Byte}
  {matched : Bool} {c : Byte}

theorem scan_name (hplain : ∀ c ∈ text, c ≠ 0 ∧ c ≠ ASCII_EQUALS ∧ c ≠ ASCII_AMPERSAND)
    (hlength : paramNameBuffer.length + text.length < BUFFER_SIZE) (rest : List Byte) :
    scan paramName .paramName paramNameBuffer paramValueBuffer matched (text ++ rest) =
      scan paramName .paramName (paramNameBuffer ++ text) paramValueBuffer matched rest := by
  induction text generalizing paramNameBuffer with
  | nil => rw [List.append_nil, List.nil_append]
  | cons c text ih =>
    obtain ⟨⟨-, hequals, hampersand⟩, htext⟩ := List.forall_mem_cons.mp hplain
    rw [List.length_cons] at hlength
    have hbuffer : (paramNameBuffer ++ [c]).length + text.length < BUFFER_SIZE := by
      rw [List.length_append, List.length_singleton]
      omega
    rw [List.cons_append, scan, if_neg hequals, if_neg hampersand, push_eq (by omega),
      Exec.ok_bind, ih htext hbuffer, List.append_assoc, List.singleton_append]

def afterValue (paramName : CString) (paramNameBuffer value : List Byte) (matched : Bool) :
    List Byte → Exec (Option CString)
  | [] => if matched then getValue value else return none
  | _ :: rest =>
    if matched then getValue value else scan paramName .ampersand paramNameBuffer value false rest

def EndsValue (rest : List Byte) : Prop := rest = [] ∨ rest.head? = some ASCII_AMPERSAND

theorem scan_paramValue (hplain : ∀ c ∈ text, c ≠ 0 ∧ c ≠ ASCII_EQUALS ∧ c ≠ ASCII_AMPERSAND)
    (hlength : paramValueBuffer.length + text.length < BUFFER_SIZE) (hrest : EndsValue rest)
    (hsome : text ++ rest ≠ []) :
    scan paramName .paramValue paramNameBuffer paramValueBuffer matched (text ++ rest) =
      afterValue paramName paramNameBuffer (paramValueBuffer ++ text) matched rest := by
  induction text generalizing paramValueBuffer with
  | nil =>
    rw [List.nil_append] at hsome
    obtain ⟨rest', rfl⟩ : ∃ rest', rest = ASCII_AMPERSAND :: rest' := by
      rcases hrest with hnil | hhead
      · exact absurd hnil hsome
      · exact ⟨rest.tail, List.eq_cons_of_mem_head? hhead⟩
    rw [List.nil_append, List.append_nil, scan, if_pos (Or.inl rfl)]
    cases matched
    · simp [afterValue]
    · simp [afterValue]
  | cons c text ih =>
    obtain ⟨⟨-, hequals, hampersand⟩, htext⟩ := List.forall_mem_cons.mp hplain
    rw [List.length_cons] at hlength
    have hbuffer : (paramValueBuffer ++ [c]).length + text.length < BUFFER_SIZE := by
      rw [List.length_append, List.length_singleton]
      omega
    have hpush : push paramValueBuffer c = .ok (paramValueBuffer ++ [c]) := push_eq (by omega)
    rw [List.cons_append, scan]
    by_cases hend : text ++ rest = []
    · obtain ⟨rfl, rfl⟩ := List.append_eq_nil_iff.mp hend
      rw [if_pos (Or.inr hend), if_pos hampersand, hpush]
      cases matched
      · simp [afterValue, hampersand, scan]
      · simp [afterValue]
    · rw [if_neg (by tauto), if_neg hequals, hpush, Exec.ok_bind, ih htext hbuffer hend,
        List.append_assoc, List.singleton_append]

theorem scan_equal (hplain : ∀ c ∈ text, c ≠ 0 ∧ c ≠ ASCII_EQUALS ∧ c ≠ ASCII_AMPERSAND)
    (hne : text ≠ []) (hlength : text.length < BUFFER_SIZE) (hrest : EndsValue rest) :
    scan paramName .equal paramNameBuffer paramValueBuffer matched (text ++ rest) =
      afterValue paramName paramNameBuffer text matched rest := by
  cases text with
  | nil => exact absurd rfl hne
  | cons c text =>
    obtain ⟨⟨-, hequals, hampersand⟩, htext⟩ := List.forall_mem_cons.mp hplain
    rw [List.length_cons] at hlength
    rw [List.cons_append, scan, if_neg (by tauto)]
    by_cases hend : text ++ rest = []
    · obtain ⟨rfl, rfl⟩ := List.append_eq_nil_iff.mp hend
      rw [if_pos hend]
      rfl
    · rw [if_neg hend, scan_paramValue htext (by simpa [Nat.add_comm] using hlength) hrest hend]
      rfl

variable (paramName paramValueBuffer rest) in
theorem scan_pair (pair : Pair) {state : QPState}
    (hstart : state = .initial ∧ paramNameBuffer = [] ∨ state = .ampersand) (hrest : EndsValue rest) :
    scan paramName state paramNameBuffer paramValueBuffer false (pair.text ++ rest) =
      terminate pair.name >>= fun native =>
        afterValue paramName pair.name pair.value (paramName = native) rest := by
  obtain ⟨c, name, hname⟩ := List.exists_cons_of_ne_nil pair.name_ne_nil
  have hplain := pair.name_plain
  have hlength := pair.name_length
  rw [hname] at hplain hlength
  obtain ⟨⟨-, hequals, hampersand⟩, htail⟩ := List.forall_mem_cons.mp hplain
  -- after its first character a name is read in the same way
  have hname' : scan paramName .paramName [c] paramValueBuffer false
      (name ++ ASCII_EQUALS :: (pair.value ++ rest)) = terminate (c :: name) >>= fun native =>
        afterValue paramName (c :: name) pair.value (paramName = native) rest := by
    rw [scan_name htail (by simpa [Nat.add_comm] using hlength), List.singleton_append, scan,
      if_pos rfl]
    congr 1
    funext native
    rw [scan_equal pair.value_plain pair.value_ne_nil pair.value_length hrest, Bool.false_or]
  rw [Pair.text, List.append_assoc, hname, List.cons_append, List.cons_append]
  rcases hstart with ⟨rfl, rfl⟩ | rfl
  · rw [scan, if_neg (by tauto), push_eq (by decide), Exec.ok_bind]
    exact hname'
  · rw [scan, if_neg (by tauto)]
    exact hname'

end Scan

def search (paramName : CString) : List Pair → Exec (Option CString)
  | [] => return none
  | pair :: pairs => do
    if paramName = (← terminate pair.name) then getValue pair.value else search paramName pairs

theorem scan_render (paramName : CString) {state : QPState} {paramNameBuffer paramValueBuffer : List Byte}
    (hstart : state = .initial ∧ paramNameBuffer = [] ∨ state = .ampersand) (pairs : List Pair) :
    scan paramName state paramNameBuffer paramValueBuffer false (render pairs) =
      search paramName pairs := by
  induction pairs generalizing state paramNameBuffer paramValueBuffer with
  | nil => cases state <;> rfl
  | cons pair pairs ih =>
    cases pairs with
    | nil =>
      have hpair := scan_pair paramName paramValueBuffer [] pair hstart (Or.inl rfl)
      rw [List.append_nil] at hpair
      rw [render, hpair, search]
      congr 1
      funext native
      simp only [afterValue, decide_eq_true_eq, search]
    | cons next pairs =>
      have hpair := scan_pair paramName paramValueBuffer
        (ASCII_AMPERSAND :: render (next :: pairs)) pair hstart (Or.inr rfl)
      rw [render, hpair, search]
      congr 1
      funext native
      rw [afterValue, ih (Or.inr rfl)]
      simp only [decide_eq_true_eq]

theorem getQueryParam_eq (request : FormRequest) (paramName : CString) :
    getQueryParam request.toHttpRequest paramName = search paramName request.pairs := by
  rw [getQueryParam, request.queryString_eq]
  exact scan_render paramName (Or.inl ⟨rfl, rfl⟩) request.pairs

section Pairs

variable {paramName : CString} {pair : Pair}

theorem Pair.noNul_name (pair : Pair) : NoNul pair.name := fun c hc => (pair.name_plain c hc).1

theorem Pair.noNul_value (pair : Pair) : NoNul pair.value := fun c hc => (pair.value_plain c hc).1

theorem takeWhile_of_isAscii {text : List Byte} (h : IsAscii text) :
    text.takeWhile (· ≠ 0x80) = text := by
  apply List.takeWhile_eq_self_iff.mpr
  intro c hc
  have := (h c hc).2
  simp only [ne_eq, decide_not, Bool.not_eq_true', decide_eq_false_iff_not]
  bv_omega

theorem isAscii_takeWhile {text : List Byte} (h0 : NoNul text) (h : InTable text) :
    IsAscii (text.takeWhile (· ≠ 0x80)) := by
  intro c hc
  have hmem := List.takeWhile_subset _ hc
  have hne : c ≠ 0x80 := by simpa using List.mem_takeWhile_imp hc
  have hle := h c hmem
  have hpos := h0 c hmem
  constructor
  · bv_omega
  · bv_omega

theorem terminate_name (h : InTable pair.name) :
    ∃ native, terminate pair.name = .ok native ∧
      nativeText (pair.name.takeWhile (· ≠ 0x80)) = some native.bytes := by
  obtain ⟨native, hnative, hbytes⟩ := destructivelyUnasciify_ok pair.noNul_name h
  refine ⟨.ofBytes native, ?_, ?_⟩
  · rw [terminate_eq pair.name_length, hnative]
    rfl
  · rw [hbytes, nativeText, if_pos (isAscii_takeWhile pair.noNul_name h)]

theorem isAscii_of_named (h : Named paramName pair) : IsAscii pair.name := by
  by_contra hascii
  rw [Named, nativeText, if_neg hascii] at h
  cases h

theorem inTable_of_isAscii {text : List Byte} (h : IsAscii text) : InTable text := by
  intro c hc
  have := (h c hc).2
  bv_omega

theorem taken_of_named (h : Named paramName pair) : Taken paramName pair := by
  rw [Taken, takeWhile_of_isAscii (isAscii_of_named h)]
  exact h

theorem mem_of_taken (h : Taken paramName pair) (hnamed : ¬ Named paramName pair) :
    0x80 ∈ pair.name := by
  by_contra hmem
  have hself : pair.name.takeWhile (· ≠ 0x80) = pair.name := by
    apply List.takeWhile_eq_self_iff.mpr
    intro c hc
    apply decide_eq_true
    rintro rfl
    exact hmem hc
  rw [Taken, hself] at h
  exact hnamed h

theorem search_taken (hbytes : InTable pair.name) (h : Taken paramName pair) (pairs : List Pair) :
    search paramName (pair :: pairs) = getValue pair.value := by
  obtain ⟨native, hnative, htext⟩ := terminate_name hbytes
  have heq : paramName = native := by
    ext1
    exact Option.some.inj (h.symm.trans htext)
  rw [search, hnative, Exec.ok_bind, if_pos heq]

theorem search_other (hbytes : InTable pair.name) (h : ¬ Taken paramName pair) (pairs : List Pair) :
    search paramName (pair :: pairs) = search paramName pairs := by
  obtain ⟨native, hnative, htext⟩ := terminate_name hbytes
  have hne : paramName ≠ native := by
    rintro rfl
    exact h htext
  rw [search, hnative, Exec.ok_bind, if_neg hne]

theorem search_beyond (hbytes : ¬ InTable pair.name) (pairs : List Pair) :
    search paramName (pair :: pairs) = .error .undefinedBehaviour := by
  rw [search, terminate_eq pair.name_length, destructivelyUnasciify_error pair.noNul_name hbytes]
  rfl

theorem getValue_ne_none (value : List Byte) : getValue value ≠ .ok none := by
  intro h
  obtain ⟨native, -, hnone⟩ := Exec.bind_eq_ok.mp h
  cases hnone

theorem isAscii_of_nativeText {text native : List Byte} (h : nativeText text = some native) :
    IsAscii text := by
  unfold nativeText at h
  split_ifs at h with hascii
  exact hascii

theorem asciiAt_ne_zero {numChar : Byte} (h : native0 + 2 ≤ numChar ∧ numChar ≤ native0 + 7) {k : ℕ}
    (hk : k < 16) : asciiAt (numChar - native0).toNat k ≠ 0 := by
  have hall : ∀ numChar : Byte, native0 + 2 ≤ numChar ∧ numChar ≤ native0 + 7 →
      ∀ k < 16, asciiAt (numChar - native0).toNat k ≠ 0 := by
    simp only [asciiAt, getD_asciiTable, asciiChar_packed]
    decide +kernel
  exact hall numChar h k hk

/-- What is cleaned has no terminator, when the digit that is kept is one from 2 to 7. -/
theorem noNul_cleanFrom {text : List Byte} (h : NoNul text) (state : URLParmState)
    (hstate : ∀ numChar, state = .percentNumber numChar →
      native0 + 2 ≤ numChar ∧ numChar ≤ native0 + 7) : NoNul (cleanFrom state text) := by
  have hpercent : nativePercent ≠ 0 := by decide
  have hblank : nativeBlank ≠ 0 := by decide
  have hnumber {numChar : Byte} (h : native0 + 2 ≤ numChar ∧ numChar ≤ native0 + 7) :
      numChar ≠ 0 := by
    rintro rfl
    exact absurd h (by decide)
  induction text generalizing state with
  | nil => cases state <;> exact NoNul.nil
  | cons c text ih =>
    obtain ⟨hc, htext⟩ := List.forall_mem_cons.mp h
    have hnormal := ih htext .normal (by simp)
    have hafter := ih htext .percent (by simp)
    cases state with
    | normal =>
      rw [cleanFrom]
      split_ifs
      · exact hafter
      · exact hnormal.cons hblank
      · exact hnormal.cons hc
    | percent =>
      rw [cleanFrom]
      split_ifs with _ hrange
      · exact hafter.cons hpercent
      · apply ih htext
        rintro numChar ⟨⟩
        exact hrange
      · exact (hnormal.cons hc).cons hpercent
    | percentNumber numChar =>
      have hrange := hstate numChar rfl
      rw [cleanFrom]
      split_ifs with h0 ha hA
      · exact hnormal.cons (asciiAt_ne_zero hrange (by bv_omega))
      · exact hnormal.cons (asciiAt_ne_zero hrange (by bv_omega))
      · exact hnormal.cons (asciiAt_ne_zero hrange (by bv_omega))
      · exact (hafter.cons (hnumber hrange)).cons hpercent
      · exact ((hnormal.cons hc).cons (hnumber hrange)).cons hpercent

theorem noNul_cleaned (value : List Byte) : NoNul (cleanFrom .normal (value.map nativeByte)) := by
  apply noNul_cleanFrom
  · intro c hc
    obtain ⟨d, -, rfl⟩ := List.mem_map.mp hc
    exact nativeByte_ne_zero
  · intro numChar h
    cases h

theorem getValue_eq (pair : Pair) (hascii : IsAscii pair.value) :
    getValue pair.value =
      .ok (some (.ofBytes (cleanFrom .normal (pair.value.map nativeByte)))) := by
  obtain ⟨native, hnative, hbytes⟩ :=
    destructivelyUnasciify_ok pair.noNul_value (inTable_of_isAscii hascii)
  rw [takeWhile_of_isAscii hascii] at hbytes
  rw [getValue, terminate_eq pair.value_length, hnative, ← hbytes]
  rfl

/-- A byte that is no percent sign, plus sign or digit is still there when a text is decoded. -/
theorem mem_decode {text : List Byte} {d : Byte} (hd : 0x80 ≤ d) (h : d ∈ text) :
    d ∈ decode text := by
  have hdigit {high low b : Byte} (hb : escape? high low = some b) : d ≠ high ∧ d ≠ low := by
    have hall : ∀ c : Byte, (Hexadecimal.digit? c).isSome → c < 0x80 := by decide +kernel
    unfold escape? at hb
    split at hb
    · rename_i a k ha hk
      have hhigh := hall high (by rw [ha]; rfl)
      have hlow := hall low (by rw [hk]; rfl)
      constructor <;> rintro rfl <;> bv_omega
    · cases hb
  have hplain : plain d = d := by
    have hall : ∀ d : Byte, 0x80 ≤ d → plain d = d := by decide +kernel
    exact hall d hd
  have hpercent : d ≠ PERCENT := by
    rintro rfl
    exact absurd hd (by decide)
  fun_induction decode text with
  | case1 high low rest b hescape ih =>
    obtain ⟨hhigh, hlow⟩ := hdigit hescape
    apply List.mem_cons_of_mem
    apply ih
    simpa [hpercent, hhigh, hlow] using h
  | case2 high low rest hescape ih =>
    apply List.mem_cons_of_mem
    apply ih
    simpa [hpercent] using h
  | case3 c high low rest hc ih =>
    rcases List.mem_cons.mp h with rfl | hrest
    · rw [hplain]
      exact List.mem_cons_self
    · exact List.mem_cons_of_mem _ (ih hrest)
  | case4 rest hshort => exact List.mem_map.mpr ⟨d, h, hplain⟩

theorem isAscii_of_decode {text : List Byte} (h0 : NoNul text) (h : IsAscii (decode text)) :
    IsAscii text := by
  intro c hc
  have hpos := h0 c hc
  refine ⟨by bv_omega, ?_⟩
  by_contra hbeyond
  have hmem := mem_decode (by bv_omega) hc
  exact hbeyond (h c hmem).2

theorem coincides_self_iff (pair : Pair) : Coincides pair pair ↔ IsDecodable pair.value := by
  constructor
  · rintro ⟨value, hdecode, hvalue⟩
    have hascii := isAscii_of_decode pair.noNul_value (isAscii_of_nativeText hdecode)
    rw [getValue_eq pair hascii] at hvalue
    have hclean : CleansRight pair.value := by
      rw [CleansRight, hdecode, ← Option.some.inj (Except.ok.inj hvalue),
        CString.ofBytes_of_noNul (noNul_cleaned pair.value)]
    exact ⟨hascii, (cleansRight_iff hascii).mp hclean⟩
  · rintro ⟨hascii, hproper⟩
    refine ⟨_, ?_, getValue_eq pair hascii⟩
    rw [CString.ofBytes_of_noNul (noNul_cleaned pair.value)]
    exact (cleansRight_iff hascii).mpr hproper

theorem search_iff (paramName : CString) (pairs : List Pair) :
    (match pairs.find? fun pair => Named paramName pair with
      | none => search paramName pairs = .ok none
      | some pair => ∃ value : CString, nativeText (decode pair.value) = some value.bytes ∧
        search paramName pairs = .ok (some value)) ↔ IsReadable pairs paramName := by
  induction pairs with
  | nil => simp [search, IsReadable]
  | cons pair pairs ih =>
    by_cases htaken : Taken paramName pair
    · have hcond : IsReadable (pair :: pairs) paramName ↔
          (IsAscii pair.name ∧ IsDecodable pair.value) ∨
            (InTable pair.name ∧ 0x80 ∈ pair.name ∧
              ∃ named, ((pair :: pairs).find? fun pair => Named paramName pair) = some named ∧
                Coincides pair named) := by
        rw [IsReadable, List.takeWhile_cons_of_neg (by simpa using htaken),
          List.find?_cons_of_pos (by simpa using htaken)]
        simp
      rw [hcond]
      by_cases hbytes : InTable pair.name
      · rw [search_taken hbytes htaken]
        by_cases hnamed : Named paramName pair
        · have hascii := isAscii_of_named hnamed
          have hmem : 0x80 ∉ pair.name := fun hmem => absurd (hascii _ hmem).2 (by decide)
          rw [List.find?_cons_of_pos (by simpa using hnamed)]
          change Coincides pair pair ↔ _
          rw [coincides_self_iff]
          exact ⟨fun h => Or.inl ⟨hascii, h⟩,
            fun h => h.elim (fun h => h.2) fun h => absurd h.2.1 hmem⟩
        · have hmem := mem_of_taken htaken hnamed
          have hascii : ¬ IsAscii pair.name := fun hascii => absurd (hascii _ hmem).2 (by decide)
          rw [List.find?_cons_of_neg (by simpa using hnamed)]
          cases hfind : pairs.find? fun pair => Named paramName pair with
          | none =>
            refine ⟨fun h => absurd h (getValue_ne_none _), ?_⟩
            rintro (h | ⟨-, -, named, hnone, -⟩)
            · exact absurd h.1 hascii
            · cases hnone
          | some named =>
            refine ⟨fun h => Or.inr ⟨hbytes, hmem, named, rfl, h⟩, ?_⟩
            rintro (h | ⟨-, -, named', hsome, h⟩)
            · exact absurd h.1 hascii
            · rw [Option.some.inj hsome]
              exact h
      · rw [search_beyond hbytes]
        constructor
        · intro h
          split at h
          · cases h
          · obtain ⟨value, -, h⟩ := h
            cases h
        · rintro (h | h)
          · exact absurd (inTable_of_isAscii h.1) hbytes
          · exact absurd h.1 hbytes
    · have hnamed : ¬ Named paramName pair := fun h => htaken (taken_of_named h)
      have hcond : IsReadable (pair :: pairs) paramName ↔
          InTable pair.name ∧ IsReadable pairs paramName := by
        rw [IsReadable, IsReadable, List.takeWhile_cons_of_pos (by simpa using htaken),
          List.find?_cons_of_neg (by simpa using htaken),
          List.find?_cons_of_neg (by simpa using hnamed), List.forall_mem_cons, and_assoc]
      rw [hcond, List.find?_cons_of_neg (by simpa using hnamed)]
      by_cases hbytes : InTable pair.name
      · rw [search_other hbytes htaken, ih]
        exact ⟨fun h => ⟨hbytes, h⟩, fun h => h.2⟩
      · rw [search_beyond hbytes]
        refine ⟨fun h => ?_, fun h => absurd h.1 hbytes⟩
        split at h
        · cases h
        · obtain ⟨value, -, h⟩ := h
          cases h

end Pairs

/-- The value of the first pair of a name is found if and only if the query is readable. -/
theorem findsFirstNamed_iff (request : FormRequest) (paramName : CString) :
    FindsFirstNamed request paramName ↔ IsReadable request.pairs paramName := by
  rw [FindsFirstNamed, getQueryParam_eq]
  exact search_iff paramName request.pairs

/-- A name and a value that is not ASCII. -/
def foreignPair : Pair where
  name := [0x61]
  value := [0xC3, 0xA9]
  name_ne_nil := by decide
  value_ne_nil := by decide
  name_length := by decide
  value_length := by decide
  name_plain := by decide
  value_plain := by decide

def foreignRequest : FormRequest where
  queryString := ⟨[0x61, 0x3D, 0xC3, 0xA9], by decide⟩
  queryStringLen := by decide
  pairs := [foreignPair]
  queryString_eq := rfl

/-- Characters that are not in the table are looked up outside it. -/
theorem not_findsFirstNamed :
    ¬ ∀ (request : FormRequest) (paramName : CString), FindsFirstNamed request paramName := by
  intro h
  have hnamed : Named ⟨[0x81], by decide⟩ foreignPair := by decide +kernel
  have hfinds := h foreignRequest ⟨[0x81], by decide⟩
  have hfind : (foreignRequest.pairs.find? fun pair => Named ⟨[0x81], by decide⟩ pair) =
      some foreignPair := List.find?_cons_of_pos (by simpa using hnamed)
  rw [FindsFirstNamed, hfind] at hfinds
  obtain ⟨value, hdecode, -⟩ := hfinds
  have hnone : nativeText (decode foreignPair.value) = none := by decide +kernel
  rw [hnone] at hdecode
  cases hdecode

end QueryParam
end Http
end ZoweCommon
