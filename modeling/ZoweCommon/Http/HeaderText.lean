import ZoweCommon.Http.Parser

/-! The names and values of headers as the parser compares and reads them, in ASCII. -/
namespace ZoweCommon
namespace Http

open Ebcdic (literal unasciify destructivelyUnasciify upchar compareIgnoringCase)

def asciiUpper (c : Byte) : Byte := if 0x61 ≤ c.toNat ∧ c.toNat ≤ 0x7A then c - 0x20 else c

/-- What a character counts as: the one after the table of ASCII is its terminator. -/
def compared (c : Byte) : Byte := if c = 0x80 then 0 else asciiUpper c

/-- A literal with its terminator, whatever its case. -/
def terminated (s : String) : List Byte := (CString.ascii s).map asciiUpper ++ [0]

/-- A text is a literal, ignoring case. -/
def IsText (text : List Byte) (s : String) : Prop :=
  text.map asciiUpper = (CString.ascii s).map asciiUpper

/-- A text is a literal as far as it goes. -/
def IsStart (text : List Byte) (s : String) : Prop := text.map compared <+: terminated s

def PassesEnd (text : List Byte) (s : String) : Prop :=
  terminated s <+: text.map compared ∧ (CString.ascii s).length + 1 < text.length

instance (text : List Byte) (s : String) : Decidable (IsText text s) :=
  inferInstanceAs (Decidable (_ = _))

instance (text : List Byte) (s : String) : Decidable (IsStart text s) :=
  inferInstanceAs (Decidable (_ <+: _))

instance (text : List Byte) (s : String) : Decidable (PassesEnd text s) :=
  inferInstanceAs (Decidable (_ ∧ _))

def InTable (text : List Byte) : Prop := ∀ c ∈ text.takeWhile (· ≠ 0), c.toNat ≤ 0x80

instance (text : List Byte) : Decidable (InTable text) := inferInstanceAs (Decidable (∀ _ ∈ _, _))

section Native

/-- The native character for one of the table. -/
def nativeChar (c : Byte) : Byte :=
  if c = 0x24 then 0x5B else if c = 0x25 then 0x6C else Ebcdic.asciiTable.getD c.toNat 0

theorem nativeChar_packed (c : Byte) : nativeChar c =
    if c = 0x24 then 0x5B else if c = 0x25 then 0x6C else
      if 0x20 ≤ c.toNat ∧ c.toNat < 0x7F then BitVec.ofNat 8
        (Ebcdic.packed Ebcdic.iso88591_to_ibm1047 >>> (8 * (BitVec.ofNat 8 c.toNat).toNat))
      else if c.toNat < 0x80 then 0x40 else 0 := by
  rw [nativeChar, Ebcdic.getD_asciiTable, Ebcdic.asciiChar_packed]

def nativeText (text : List Byte) : List Byte :=
  (text.takeWhile (· ≠ 0)).map nativeChar ++ text.dropWhile (· ≠ 0)

theorem unasciify_eq (c : Byte) :
    unasciify c = if c.toNat ≤ 0x80 then .ok (nativeChar c) else .error .undefinedBehaviour := by
  rw [unasciify, nativeChar, Ebcdic.getElem?_asciiTable, Ebcdic.getD_asciiTable]
  by_cases hdollar : c = 0x24
  · rw [hdollar]
    rfl
  · by_cases hpercent : c = 0x25
    · rw [hpercent]
      rfl
    · rw [if_neg hdollar, if_neg hpercent, if_neg hdollar, if_neg hpercent]
      split_ifs <;> rfl

theorem nativeText_cons {c : Byte} (hc : c ≠ 0) (text : List Byte) :
    nativeText (c :: text) = nativeChar c :: nativeText text := by
  unfold nativeText
  rw [List.takeWhile_cons_of_pos (by simpa using hc), List.dropWhile_cons_of_pos (by simpa using hc)]
  rfl

theorem nativeText_zero (text : List Byte) : nativeText (0 :: text) = 0 :: text := rfl

theorem nativeText_of_noNul {text : List Byte} (h : NoNul text) :
    nativeText text = text.map nativeChar := by
  induction text with
  | nil => rfl
  | cons c text ih =>
    obtain ⟨hc, hrest⟩ := List.forall_mem_cons.mp h
    rw [nativeText_cons hc, ih hrest, List.map_cons]

@[simp] theorem length_nativeText (text : List Byte) : (nativeText text).length = text.length := by
  unfold nativeText
  rw [List.length_append, List.length_map, ← List.length_append, List.takeWhile_append_dropWhile]

theorem inTable_cons {c : Byte} (hc : c ≠ 0) {text : List Byte} :
    InTable (c :: text) ↔ c.toNat ≤ 0x80 ∧ InTable text := by
  unfold InTable
  rw [List.takeWhile_cons_of_pos (by simpa using hc), List.forall_mem_cons]

theorem destructivelyUnasciify_eq (text : List Byte) :
    destructivelyUnasciify text =
      if InTable text then .ok (nativeText text) else .error .undefinedBehaviour := by
  induction text with
  | nil => rfl
  | cons c text ih =>
    rw [destructivelyUnasciify]
    by_cases hc : c = 0
    · have htable : InTable (c :: text) := by
        rw [hc]
        exact List.forall_mem_nil _
      rw [if_pos hc, if_pos htable, hc, nativeText_zero]
      rfl
    · rw [if_neg hc, unasciify_eq, ih, nativeText_cons hc]
      by_cases htable : c.toNat ≤ 0x80
      · by_cases hrest : InTable text
        · rw [if_pos htable, if_pos hrest, if_pos ((inTable_cons hc).mpr ⟨htable, hrest⟩)]
          rfl
        · rw [if_pos htable, if_neg hrest, if_neg fun h => hrest ((inTable_cons hc).mp h).2]
          rfl
      · rw [if_neg htable, if_neg fun h => htable ((inTable_cons hc).mp h).1]
        rfl

/-- A native character is, up to its case, the one of a literal if it counts as that. -/
theorem upchar_nativeChar {c d : Byte} (hc : c.toNat ≤ 0x80) (hzero : c ≠ 0)
    (hd : isAsciiPrintable d) :
    upchar (nativeChar c) = upchar (Ebcdic.toIbm1047 d) ↔ compared c = asciiUpper d := by
  have hall : ∀ c : Byte, c.toNat ≤ 0x80 → c ≠ 0 →
      upchar (nativeChar c) = upchar (Ebcdic.toIbm1047 (compared c)) ∧ isAsciiPrintable c ∨
      (isAsciiPrintable (Ebcdic.toIso88591 (upchar (nativeChar c))) = false ∧
        isAsciiPrintable (compared c) = false) := by
    simp only [nativeChar_packed, Ebcdic.toIbm1047_packed, Ebcdic.toIso88591_packed]
    decide +kernel
  have hupper : ∀ d : Byte, isAsciiPrintable d →
      Ebcdic.toIso88591 (upchar (Ebcdic.toIbm1047 d)) = asciiUpper d ∧
        isAsciiPrintable (asciiUpper d) := by
    simp only [Ebcdic.toIbm1047_packed, Ebcdic.toIso88591_packed]
    decide +kernel
  have hcompared : ∀ c : Byte, isAsciiPrintable c →
      Ebcdic.toIso88591 (upchar (Ebcdic.toIbm1047 (compared c))) = compared c := by
    simp only [Ebcdic.toIbm1047_packed, Ebcdic.toIso88591_packed]
    decide +kernel
  obtain ⟨htext, hprintable⟩ := hupper d hd
  rcases hall c hc hzero with ⟨heq, hin⟩ | ⟨hshown, hout⟩
  · rw [heq]
    constructor
    · intro h
      rw [← htext, ← h, hcompared c hin]
    · intro h
      apply Ebcdic.toIso88591_injective
      rw [htext, ← h, hcompared c hin]
  · constructor
    · intro h
      rw [h, htext, hprintable] at hshown
      exact absurd hshown.symm Bool.false_ne_true
    · intro h
      rw [h, hprintable] at hout
      exact absurd hout.symm Bool.false_ne_true

theorem upchar_terminator {c : Byte} (hc : c.toNat ≤ 0x80) (hzero : c ≠ 0) :
    upchar (nativeChar c) = 0 ↔ compared c = 0 := by
  have hall : ∀ c : Byte, c.toNat ≤ 0x80 → c ≠ 0 →
      (upchar (nativeChar c) = 0 ↔ compared c = 0) := by
    simp only [nativeChar_packed]
    decide +kernel
  exact hall c hc hzero

theorem sub_toNat_eq_zero {a b : Byte} : ((a.toNat : ℤ) - b.toNat = 0) ↔ a = b := by
  rw [BitVec.toNat_eq]
  omega

theorem compare_same {a b : Byte} (h : upchar a = upchar b) (s t : List Byte) (len : ℕ) :
    compareIgnoringCase (a :: s) (b :: t) (len + 1) = compareIgnoringCase s t len := by
  rw [compareIgnoringCase, if_neg fun hdiff => hdiff (sub_toNat_eq_zero.mpr h)]

theorem compare_differ {a b : Byte} (h : upchar a ≠ upchar b) (s t : List Byte) (len : ℕ) :
    (do let diff ← compareIgnoringCase (a :: s) (b :: t) (len + 1)
        return decide (diff = 0) : Exec Bool) = .ok false := by
  have hdiff : ((upchar a).toNat : ℤ) - (upchar b).toNat ≠ 0 := fun hzero =>
    h (sub_toNat_eq_zero.mp hzero)
  rw [compareIgnoringCase, if_pos hdiff]
  show Except.ok (decide _) = _
  rw [decide_eq_false hdiff]

theorem compareIgnoringCase_native {lit : List Byte} (hlit : ∀ d ∈ lit, isAsciiPrintable d)
    {text : List Byte} (htable : InTable text) :
    (do let diff ← compareIgnoringCase (nativeText text ++ [0]) (lit.map Ebcdic.toIbm1047 ++ [0])
          text.length
        return decide (diff = 0) : Exec Bool) =
      if lit.map asciiUpper ++ [0] <+: text.map compared ∧ lit.length + 1 < text.length then
        .error .undefinedBehaviour
      else .ok (decide (text.map compared <+: lit.map asciiUpper ++ [0])) := by
  induction text generalizing lit with
  | nil =>
    rw [if_neg fun h => by simpa using h.2]
    rfl
  | cons c text ih =>
    rw [List.length_cons, List.map_cons]
    cases lit with
    | nil =>
      by_cases hend : compared c = 0
      · have hsame : ∃ a, nativeText (c :: text) = a :: (nativeText (c :: text)).tail ∧
            upchar a = upchar 0 := by
          by_cases hc : c = 0
          · exact ⟨0, by rw [hc, nativeText_zero, List.tail_cons], rfl⟩
          · have hle := ((inTable_cons hc).mp htable).1
            refine ⟨nativeChar c, by rw [nativeText_cons hc, List.tail_cons], ?_⟩
            exact (upchar_terminator hle hc).mpr hend
        obtain ⟨a, hcons, ha⟩ := hsame
        rw [hcons, List.map_nil, List.nil_append, List.cons_append, compare_same ha, hend]
        cases text with
        | nil =>
          have hstart : [0] <+: ([0] : List Byte) := List.prefix_refl _
          rw [if_neg fun h => by simpa using h.2, List.length_nil, compareIgnoringCase,
            List.map_nil, List.map_nil, List.nil_append, decide_eq_true hstart]
          rfl
        | cons d text =>
          have hpasses : [0] <+: 0 :: (d :: text).map compared ∧
              ([] : List Byte).length + 1 < (d :: text).length + 1 := by
            constructor
            · exact ⟨_, rfl⟩
            · simp
          have hover : compareIgnoringCase ((nativeText (c :: d :: text)).tail ++ [0]) []
              (d :: text).length = .error .undefinedBehaviour := by
            rw [List.length_cons]
            rw [compareIgnoringCase]
            · rfl
            · simp
          rw [hover, List.map_nil, List.nil_append, if_pos hpasses]
          rfl
      · have hc : c ≠ 0 := by
          rintro rfl
          exact hend rfl
        have hle := ((inTable_cons hc).mp htable).1
        have hdiffer : upchar (nativeChar c) ≠ upchar 0 := fun h =>
          hend ((upchar_terminator hle hc).mp h)
        rw [nativeText_cons hc, List.map_nil, List.nil_append, List.cons_append,
          compare_differ hdiffer, List.map_nil, List.nil_append]
        have hout : ¬[0] <+: compared c :: text.map compared := by
          rintro ⟨more, hmore⟩
          exact hend (List.cons.inj hmore).1.symm
        have hstart : ¬compared c :: text.map compared <+: [0] := by
          rintro ⟨more, hmore⟩
          exact hend (List.cons.inj hmore).1
        rw [if_neg fun h => hout h.1, decide_eq_false hstart]
    | cons d lit =>
      obtain ⟨hd, hrest⟩ := List.forall_mem_cons.mp hlit
      rw [List.map_cons, List.map_cons, List.cons_append, List.cons_append]
      by_cases hcount : compared c = asciiUpper d
      · have hc : c ≠ 0 := by
          rintro rfl
          have hall : ∀ d : Byte, isAsciiPrintable d → compared 0 ≠ asciiUpper d := by
            decide +kernel
          exact hall d hd hcount
        obtain ⟨hle, htext⟩ := (inTable_cons hc).mp htable
        have hsame := (upchar_nativeChar hle hc hd).mpr hcount
        rw [nativeText_cons hc, List.cons_append, compare_same hsame, ih hrest htext, hcount]
        simp only [List.cons_prefix_cons, true_and, List.length_cons, Nat.add_lt_add_iff_right]
      · have hcons : ∃ a rest, nativeText (c :: text) = a :: rest ∧
            upchar a ≠ upchar (Ebcdic.toIbm1047 d) := by
          by_cases hc : c = 0
          · refine ⟨0, text, by rw [hc, nativeText_zero], ?_⟩
            have hall : ∀ d : Byte, isAsciiPrintable d →
                upchar 0 ≠ upchar (Ebcdic.toIbm1047 d) := by decide +kernel
            exact hall d hd
          · have hle := ((inTable_cons hc).mp htable).1
            refine ⟨nativeChar c, nativeText text, nativeText_cons hc text, fun h => hcount ?_⟩
            exact (upchar_nativeChar hle hc hd).mp h
        obtain ⟨a, rest, hcons, hdiffer⟩ := hcons
        rw [hcons, List.cons_append, compare_differ hdiffer]
        simp only [List.cons_prefix_cons, hcount, Ne.symm hcount, false_and, if_false,
          decide_false]

theorem sameText_eq {s : String} (hs : ∀ d ∈ CString.ascii s, isAsciiPrintable d) {text : List Byte}
    (htable : InTable text) :
    HttpRequestParser.sameText (nativeText text) s =
      if PassesEnd text s then .error .undefinedBehaviour else .ok (decide (IsStart text s)) := by
  have hcompare := compareIgnoringCase_native hs htable
  unfold HttpRequestParser.sameText literal
  rw [length_nativeText]
  exact hcompare

end Native

section Atoi

open CLibrary (isdigit isspace splitSign)

/-- The number that `atoi` makes of a text without leading blanks. -/
def atoiValue (text : List Byte) : ℤ :=
  let (negative, text) := splitSign text
  let n := Decimal.value ((text.takeWhile fun b => isdigit b.toInt).map fun b => b.toNat - 0x30)
  if negative then -n else n

def IsInt (z : ℤ) : Prop := -2 ^ 31 ≤ z ∧ z < 2 ^ 31

instance (z : ℤ) : Decidable (IsInt z) := inferInstanceAs (Decidable (_ ∧ _))

def readBack (c : Byte) : Byte := Ebcdic.toIso88591 (nativeChar c)

theorem readBack_printable {c : Byte} (h : isAsciiPrintable c) : readBack c = c := by
  have hall : ∀ c : Byte, isAsciiPrintable c → readBack c = c := by
    simp only [readBack, nativeChar_packed, Ebcdic.toIso88591_packed]
    decide +kernel
  exact hall c h

theorem toASCIIUTF8_native {text : List Byte} (h : InTable text) :
    Ebcdic.toASCIIUTF8 (CString.ofBytes (nativeText text)).bytes =
      (text.takeWhile fun c => c ≠ 0 && c ≠ 0x80).map readBack := by
  induction text with
  | nil => rfl
  | cons c text ih =>
    by_cases hc : c = 0
    · rw [hc]
      rfl
    · obtain ⟨hle, hrest⟩ := (inTable_cons hc).mp h
      have hzero : nativeChar c = 0 ↔ c = 0x80 := by
        have hall : ∀ c : Byte, c.toNat ≤ 0x80 → (nativeChar c = 0 ↔ c = 0x80) := by
          simp only [nativeChar_packed]
          decide +kernel
        exact hall c hle
      have hbytes : ∀ a rest, (CString.ofBytes (a :: rest)).bytes =
          if a = 0 then [] else a :: (CString.ofBytes rest).bytes := by
        intro a rest
        show (a :: rest).takeWhile (· ≠ 0) = if a = 0 then [] else a :: rest.takeWhile (· ≠ 0)
        by_cases ha : a = 0
        · rw [if_pos ha, List.takeWhile_cons_of_neg (by simpa using ha)]
        · rw [if_neg ha, List.takeWhile_cons_of_pos (by simpa using ha)]
      rw [nativeText_cons hc, hbytes]
      by_cases hend : c = 0x80
      · rw [if_pos (hzero.mpr hend), hend]
        rfl
      · rw [if_neg fun h => hend (hzero.mp h), List.takeWhile_cons_of_pos (by simpa using ⟨hc, hend⟩),
          List.map_cons, ← ih hrest]
        rfl

theorem takeWhile_readBack (text : List Byte) :
    (((text.takeWhile fun c => c ≠ 0 && c ≠ 0x80).map readBack).takeWhile fun b => isdigit b.toInt) =
      text.takeWhile fun b => isdigit b.toInt := by
  have hall : ∀ c : Byte, isdigit (readBack c).toInt = isdigit c.toInt ∧
      (isdigit c.toInt → readBack c = c ∧ c ≠ 0 ∧ c ≠ 0x80) := by
    simp only [readBack, nativeChar_packed, Ebcdic.toIso88591_packed]
    decide +kernel
  induction text with
  | nil => rfl
  | cons c text ih =>
    obtain ⟨hback, hdigit⟩ := hall c
    by_cases h : isdigit c.toInt = true
    · obtain ⟨hsame, hzero, hend⟩ := hdigit h
      rw [List.takeWhile_cons_of_pos (by simpa using ⟨hzero, hend⟩), List.map_cons, hsame,
        List.takeWhile_cons, List.takeWhile_cons, if_pos h, if_pos h, ih]
    · have hnone : ((c :: text).takeWhile fun b => isdigit b.toInt) = [] := by
        rw [List.takeWhile_cons, if_neg h]
      rw [hnone]
      by_cases hkept : (c ≠ 0 && c ≠ 0x80) = true
      · rw [List.takeWhile_cons, if_pos hkept, List.map_cons, List.takeWhile_cons, hback, if_neg h]
      · rw [List.takeWhile_cons, if_neg hkept]
        rfl

theorem splitSign_cons (c : Byte) (text : List Byte) :
    splitSign (c :: text) =
      if c = 0x2D then (true, text) else if c = 0x2B then (false, text) else (false, c :: text) := by
  unfold splitSign
  simp only [List.head?_cons, Option.some_inj, List.tail_cons]

theorem atoi_native {c : Byte} {text : List Byte} (hfirst : isAsciiPrintable c)
    (htable : InTable (c :: text)) :
    Ebcdic.atoi (.ofBytes (nativeText (c :: text))) =
      if IsInt (atoiValue (c :: text)) then .ok (BitVec.ofInt 32 (atoiValue (c :: text)))
      else .error .undefinedBehaviour := by
  have hstart : ∀ c : Byte, isAsciiPrintable c → c ≠ 0 ∧ c ≠ 0x80 ∧ isspace c.toInt = false := by
    decide +kernel
  obtain ⟨hzero, hend, hspace⟩ := hstart c hfirst
  have hback : ((c :: text).takeWhile fun c => c ≠ 0 && c ≠ 0x80).map readBack =
      c :: (text.takeWhile fun c => c ≠ 0 && c ≠ 0x80).map readBack := by
    rw [List.takeWhile_cons_of_pos (by simpa using ⟨hzero, hend⟩), List.map_cons,
      readBack_printable hfirst]
  have hnoNul : NoNul (Ebcdic.toASCIIUTF8 (CString.ofBytes (nativeText (c :: text))).bytes) := by
    intro b hb
    obtain ⟨a, ha, rfl⟩ := List.mem_map.mp hb
    have hne := (CString.ofBytes (nativeText (c :: text))).noNul a ha
    exact fun h => hne (Ebcdic.toIso88591_injective h)
  have hdigits := takeWhile_readBack text
  have hall := takeWhile_readBack (c :: text)
  unfold Ebcdic.atoi CLibrary.atoi atoiValue
  rw [CString.ofBytes_of_noNul hnoNul, toASCIIUTF8_native htable]
  rw [hback] at hall ⊢
  rw [List.dropWhile_cons, hspace, if_neg Bool.false_ne_true]
  dsimp only
  rw [splitSign_cons, splitSign_cons]
  by_cases hminus : c = 0x2D
  · rw [if_pos hminus, if_pos hminus]
    dsimp only
    rw [hdigits]
    rfl
  · rw [if_neg hminus, if_neg hminus]
    by_cases hplus : c = 0x2B
    · rw [if_pos hplus, if_pos hplus]
      dsimp only
      rw [hdigits]
      rfl
    · rw [if_neg hplus, if_neg hplus]
      dsimp only
      rw [hall]
      rfl

end Atoi

/-- Which header the parser takes a name for. -/
inductive HeaderRole
  | transferEncoding
  | contentLength
  | contentType
  | upgrade
  | connection
  | other
  deriving DecidableEq, Repr

def headerRole (name : List Byte) : HeaderRole :=
  if IsStart name "Transfer-Encoding" then .transferEncoding
  else if IsStart name "Content-Length" then .contentLength
  else if IsStart name "Content-Type" then .contentType
  else if IsStart name "Upgrade" then .upgrade
  else if IsStart name "Connection" then .connection
  else .other

/-- What the parser does with a value has a meaning. -/
def HeaderRole.Reads (value : List Byte) : HeaderRole → Prop
  | .transferEncoding => ¬PassesEnd value "chunked"
  | .contentLength => IsInt (atoiValue value)
  | .upgrade => ¬PassesEnd value "websocket"
  | .connection => ¬PassesEnd value "Keep-Alive"
  | .contentType | .other => True

instance (value : List Byte) : (role : HeaderRole) → Decidable (role.Reads value)
  | .transferEncoding => inferInstanceAs (Decidable (¬PassesEnd value "chunked"))
  | .contentLength => inferInstanceAs (Decidable (IsInt (atoiValue value)))
  | .upgrade => inferInstanceAs (Decidable (¬PassesEnd value "websocket"))
  | .connection => inferInstanceAs (Decidable (¬PassesEnd value "Keep-Alive"))
  | .contentType | .other => inferInstanceAs (Decidable True)

def Readable (name value : List Byte) : Prop := InTable value ∧ (headerRole name).Reads value

instance (name value : List Byte) : Decidable (Readable name value) :=
  inferInstanceAs (Decidable (_ ∧ _))

def HeaderRole.chunks (value : List Byte) (role : HeaderRole) : Bool :=
  role = .transferEncoding && IsStart value "chunked"

def HeaderRole.note (parser : HttpRequestParser) (value : List Byte) :
    HeaderRole → HttpRequestParser
  | .transferEncoding =>
    if IsStart value "chunked" then { parser with isChunked := true } else parser
  | .contentLength => { parser with specifiedContentLength := atoiValue value }
  | .contentType => { parser with contentType := some (nativeText value) }
  | .upgrade => if IsStart value "websocket" then { parser with isWebSocket := true } else parser
  | .connection => if IsStart value "Keep-Alive" then { parser with keepAlive := true } else parser
  | .other => parser

def append (parser : HttpRequestParser) (newHeader : HttpHeader) : HttpRequestParser :=
  { parser with headerChain := parser.headerChain ++ [newHeader] }

def nativeHeader (name value : List Byte) : HttpHeader :=
  { name, nativeName := nativeText name, value, nativeValue := nativeText value }

section Adding

variable {parser : HttpRequestParser} {name value : List Byte}

theorem inTable_of_printable {text : List Byte} (h : ∀ c ∈ text, isAsciiPrintable c) :
    InTable text := by
  have hall : ∀ c : Byte, isAsciiPrintable c → c.toNat ≤ 0x80 := by decide +kernel
  exact fun c hc => hall c (h c ((List.takeWhile_prefix _).subset hc))

theorem not_passesEnd_of_printable {s : String} (h : ∀ c ∈ name, isAsciiPrintable c) :
    ¬PassesEnd name s := by
  intro hpasses
  have hmem : (0 : Byte) ∈ name.map compared := by
    apply hpasses.1.subset
    unfold terminated
    exact List.mem_append_right _ (List.mem_singleton_self 0)
  obtain ⟨c, hc, hzero⟩ := List.mem_map.mp hmem
  have hall : ∀ c : Byte, isAsciiPrintable c → compared c ≠ 0 := by decide +kernel
  exact hall c (h c hc) hzero

theorem sameText_name {s : String} (hs : ∀ d ∈ CString.ascii s, isAsciiPrintable d)
    (h : ∀ c ∈ name, isAsciiPrintable c) :
    HttpRequestParser.sameText (nativeText name) s = .ok (decide (IsStart name s)) := by
  rw [sameText_eq hs (inTable_of_printable h), if_neg (not_passesEnd_of_printable h)]

theorem toInt_ofInt {z : ℤ} (h : IsInt z) : (BitVec.ofInt 32 z).toInt = z := by
  obtain ⟨hlo, hhi⟩ := h
  rw [BitVec.toInt_ofInt, Int.bmod_eq_of_le]
  · omega
  · omega

theorem noteHeader_eq (hname : ∀ c ∈ name, isAsciiPrintable c)
    (hfirst : ∃ c text, value = c :: text ∧ isAsciiPrintable c) (htable : InTable value) :
    parser.noteHeader (nativeHeader name value) =
      if (headerRole name).Reads value then .ok ((headerRole name).note parser value)
      else .error .undefinedBehaviour := by
  have hte := sameText_name (s := "Transfer-Encoding") (by decide) hname
  have hcl := sameText_name (s := "Content-Length") (by decide) hname
  have hct := sameText_name (s := "Content-Type") (by decide) hname
  have hupgrade := sameText_name (s := "Upgrade") (by decide) hname
  have hconnection := sameText_name (s := "Connection") (by decide) hname
  have hflag : ∀ (s : String) (p : HttpRequestParser), (∀ d ∈ CString.ascii s, isAsciiPrintable d) →
      (do if ← HttpRequestParser.sameText (nativeText value) s then return p else return parser) =
        if ¬PassesEnd value s then .ok (if IsStart value s then p else parser)
        else (.error .undefinedBehaviour : Exec HttpRequestParser) := by
    intro s p hs
    rw [sameText_eq hs htable]
    by_cases hpasses : PassesEnd value s
    · rw [if_pos hpasses, if_neg (not_not_intro hpasses)]
      rfl
    · rw [if_neg hpasses, if_pos hpasses, Exec.ok_bind]
      by_cases hstart : IsStart value s
      · rw [decide_eq_true hstart, if_pos rfl, if_pos hstart]
        rfl
      · rw [decide_eq_false hstart, if_neg Bool.false_ne_true, if_neg hstart]
        rfl
  unfold HttpRequestParser.noteHeader nativeHeader headerRole
  dsimp only
  rw [hte, Exec.ok_bind]
  by_cases htransfer : IsStart name "Transfer-Encoding"
  · rw [decide_eq_true htransfer, if_pos rfl, if_pos htransfer]
    exact hflag "chunked" _ (by decide)
  rw [decide_eq_false htransfer, if_neg Bool.false_ne_true, if_neg htransfer, hcl, Exec.ok_bind]
  by_cases hlength : IsStart name "Content-Length"
  · obtain ⟨c, text, rfl, hprintable⟩ := hfirst
    rw [decide_eq_true hlength, if_pos rfl, if_pos hlength, atoi_native hprintable htable]
    by_cases hint : IsInt (atoiValue (c :: text))
    · have hreads : HeaderRole.Reads (c :: text) .contentLength := hint
      rw [if_pos hint, Exec.ok_bind, toInt_ofInt hint, if_pos hreads]
      rfl
    · have hreads : ¬HeaderRole.Reads (c :: text) .contentLength := hint
      rw [if_neg hint, if_neg hreads]
      rfl
  rw [decide_eq_false hlength, if_neg Bool.false_ne_true, if_neg hlength, hct, Exec.ok_bind]
  by_cases htype : IsStart name "Content-Type"
  · rw [decide_eq_true htype, if_pos rfl, if_pos htype]
    rfl
  rw [decide_eq_false htype, if_neg Bool.false_ne_true, if_neg htype, hupgrade, Exec.ok_bind]
  by_cases hweb : IsStart name "Upgrade"
  · rw [decide_eq_true hweb, if_pos rfl, if_pos hweb]
    exact hflag "websocket" _ (by decide)
  rw [decide_eq_false hweb, if_neg Bool.false_ne_true, if_neg hweb, hconnection, Exec.ok_bind]
  by_cases hkeep : IsStart name "Connection"
  · rw [decide_eq_true hkeep, if_pos rfl, if_pos hkeep]
    exact hflag "Keep-Alive" _ (by decide)
  rw [decide_eq_false hkeep, if_neg Bool.false_ne_true, if_neg hkeep]
  rfl

theorem addRequestHeader_eq (hname : ∀ c ∈ parser.headerName, isAsciiPrintable c)
    (hfirst : ∃ c text, parser.headerValue = c :: text ∧ isAsciiPrintable c) :
    parser.addRequestHeader =
      if Readable parser.headerName parser.headerValue then
        .ok (append ((headerRole parser.headerName).note parser parser.headerValue)
          (nativeHeader parser.headerName parser.headerValue))
      else .error .undefinedBehaviour := by
  unfold HttpRequestParser.addRequestHeader
  rw [destructivelyUnasciify_eq, if_pos (inTable_of_printable hname), Exec.ok_bind,
    destructivelyUnasciify_eq]
  by_cases htable : InTable parser.headerValue
  · have hnote := @noteHeader_eq parser _ _ hname hfirst htable
    unfold nativeHeader at hnote
    rw [if_pos htable, Exec.ok_bind]
    dsimp only
    rw [hnote]
    by_cases hreads : (headerRole parser.headerName).Reads parser.headerValue
    · have hreadable : Readable parser.headerName parser.headerValue := ⟨htable, hreads⟩
      rw [if_pos hreads, if_pos hreadable]
      rfl
    · have hreadable : ¬Readable parser.headerName parser.headerValue := fun h => hreads h.2
      rw [if_neg hreads, if_neg hreadable]
      rfl
  · have hreadable : ¬Readable parser.headerName parser.headerValue := fun h => htable h.1
    rw [if_neg htable, if_neg hreadable]
    rfl

end Adding

end Http
end ZoweCommon
