import ZoweCommon.Basic.CLibrary
import ZoweCommon.Lib.Recorded

/-! The tokenizer of the filter language, and the character codes that it looks up. -/
namespace ZoweCommon
namespace Jq

open CLibrary CString

def EOF_TOKEN : ℤ := -1

def NO_VALID_TOKEN : ℤ := 0

def FIRST_REAL_TOKEN_ID : ℤ := 1

def JTOKEN_IDENTIFIER : ℤ := FIRST_REAL_TOKEN_ID

def JTOKEN_INTEGER : ℤ := FIRST_REAL_TOKEN_ID + 1

def JTOKEN_DQUOTE_STRING : ℤ := FIRST_REAL_TOKEN_ID + 2

def JTOKEN_SQUOTE_STRING : ℤ := FIRST_REAL_TOKEN_ID + 3

def CPROP_ALPHA : ℕ := 0x0001

def CPROP_DIGIT : ℕ := 0x0002

def CPROP_HEX : ℕ := 0x0004

def CPROP_CONTROL : ℕ := 0x0008

def CPROP_LETTER : ℕ := 0x0010

def CPROP_LOWER : ℕ := 0x0020

def CPROP_WHITE : ℕ := 0x0040

def upperCase : ℕ := CPROP_ALPHA ||| CPROP_LETTER

def lowerCase : ℕ := CPROP_ALPHA ||| CPROP_LETTER ||| CPROP_LOWER

/-- The entries of the source by runs of equal ones. -/
def charProps : List ℕ :=
  List.replicate 0x09 CPROP_CONTROL ++
  List.replicate 0x05 (CPROP_CONTROL ||| CPROP_WHITE) ++
  List.replicate 0x0E CPROP_CONTROL ++
  List.replicate 0x04 (CPROP_CONTROL ||| CPROP_WHITE) ++
  [CPROP_WHITE] ++
  List.replicate 0x0F 0 ++
  List.replicate 0x0A (CPROP_DIGIT ||| CPROP_HEX) ++
  List.replicate 0x07 0 ++
  List.replicate 0x06 (upperCase ||| CPROP_HEX) ++
  List.replicate 0x14 upperCase ++
  List.replicate 0x06 0 ++
  List.replicate 0x06 (lowerCase ||| CPROP_HEX) ++
  List.replicate 0x14 lowerCase ++
  List.replicate 0x04 0 ++
  List.replicate 0x21 CPROP_CONTROL ++
  List.replicate 0x0A 0 ++
  [lowerCase] ++
  List.replicate 0x0A 0 ++
  [lowerCase] ++
  List.replicate 0x04 0 ++
  [lowerCase] ++
  List.replicate 0x05 0 ++
  List.replicate 0x17 upperCase ++
  [0] ++
  List.replicate 0x07 upperCase ++
  List.replicate 0x18 lowerCase ++
  [0] ++
  List.replicate 0x08 lowerCase

def cp1047to1208 : List ℕ :=
  [0x00, 0x01, 0x02, 0x03, 0x9c, 0x09, 0x86, 0x7f, 0x97, 0x8d, 0x8e, 0x0b, 0x0c, 0x0d, 0x0e, 0x0f,
    0x10, 0x11, 0x12, 0x13, 0x9d, 0x0a, 0x08, 0x87, 0x18, 0x19, 0x92, 0x8f, 0x1c, 0x1d, 0x1e, 0x1f,
    0x80, 0x81, 0x82, 0x83, 0x84, 0x85, 0x17, 0x1b, 0x88, 0x89, 0x8a, 0x8b, 0x8c, 0x05, 0x06, 0x07,
    0x90, 0x91, 0x16, 0x93, 0x94, 0x95, 0x96, 0x04, 0x98, 0x99, 0x9a, 0x9b, 0x14, 0x15, 0x9e, 0x1a,
    0x20, 0xa0, 0xe2, 0xe4, 0xe0, 0xe1, 0xe3, 0xe5, 0xe7, 0xf1, 0xa2, 0x2e, 0x3c, 0x28, 0x2b, 0x7c,
    0x26, 0xe9, 0xea, 0xeb, 0xe8, 0xed, 0xee, 0xef, 0xec, 0xdf, 0x21, 0x24, 0x2a, 0x29, 0x3b, 0x5e,
    0x2d, 0x2f, 0xc2, 0xc4, 0xc0, 0xc1, 0xc3, 0xc5, 0xc7, 0xd1, 0xa6, 0x2c, 0x25, 0x5f, 0x3e, 0x3f,
    0xf8, 0xc9, 0xca, 0xcb, 0xc8, 0xcd, 0xce, 0xcf, 0xcc, 0x60, 0x3a, 0x23, 0x40, 0x27, 0x3d, 0x22,
    0xd8, 0x61, 0x62, 0x63, 0x64, 0x65, 0x66, 0x67, 0x68, 0x69, 0xab, 0xbb, 0xf0, 0xfd, 0xfe, 0xb1,
    0xb0, 0x6a, 0x6b, 0x6c, 0x6d, 0x6e, 0x6f, 0x70, 0x71, 0x72, 0xaa, 0xba, 0xe6, 0xb8, 0xc6, 0xa4,
    0xb5, 0x7e, 0x73, 0x74, 0x75, 0x76, 0x77, 0x78, 0x79, 0x7a, 0xa1, 0xbf, 0xd0, 0x5b, 0xde, 0xae,
    0xac, 0xa3, 0xa5, 0xb7, 0xa9, 0xa7, 0xb6, 0xbc, 0xbd, 0xbe, 0xdd, 0xa8, 0xaf, 0x5d, 0xb4, 0xd7,
    0x7b, 0x41, 0x42, 0x43, 0x44, 0x45, 0x46, 0x47, 0x48, 0x49, 0xad, 0xf4, 0xf6, 0xf2, 0xf3, 0xf5,
    0x7d, 0x4a, 0x4b, 0x4c, 0x4d, 0x4e, 0x4f, 0x50, 0x51, 0x52, 0xb9, 0xfb, 0xfc, 0xf9, 0xfa, 0xff,
    0x5c, 0xf7, 0x53, 0x54, 0x55, 0x56, 0x57, 0x58, 0x59, 0x5a, 0xb2, 0xd4, 0xd6, 0xd2, 0xd3, 0xd5,
    0x30, 0x31, 0x32, 0x33, 0x34, 0x35, 0x36, 0x37, 0x38, 0x39, 0xb3, 0xdb, 0xdc, 0xd9, 0xda, 0x9f]

def IBM1047 : ℤ := 1047

def UTF8 : ℤ := 1208

/-- A table is read outside its entries. -/
inductive OutsideTable
  | outsideTable

/-- A run of code that looks characters up, with the codes that it passes. -/
abbrev Classified := Recorded ℤ OutsideTable

/-- Every code that is passed has an entry. -/
def Classified.Within {α : Type} (m : Classified α) : Prop := m.Every fun c => 0 ≤ c ∧ c ≤ 255

def tableEntry (table : List ℕ) (c : ℤ) : Except OutsideTable ℕ :=
  if 0 ≤ c then (table[c.toNat]?).elim (.error .outsideTable) .ok else .error .outsideTable

def testCharProp (ccsid c : ℤ) (prop : ℕ) : Classified Bool where
  events := [c]
  result :=
    if ccsid = IBM1047 then do
      let u ← tableEntry cp1047to1208 c
      let props ← tableEntry charProps u
      pure (props &&& prop != 0)
    else if ccsid = UTF8 then do
      let props ← tableEntry charProps c
      pure (props &&& prop != 0)
    else pure false

/-- The states of the source but for those that only its `default` case knows. -/
inductive TokenState
  | STATE_INITIAL
  | STATE_INTEGER
  | STATE_IDENTIFIER
  | STATE_SQUOTE
  | STATE_DQUOTE
  deriving DecidableEq

structure JQTokenizer where
  ccsid : ℤ
  tokenState : TokenState
  data : List Byte
  pos : ℕ
  lastTokenStart : ℕ
  lastTokenEnd : ℕ

def isLetter (jqt : JQTokenizer) (c : ℤ) : Classified Bool :=
  testCharProp jqt.ccsid c CPROP_LETTER

def isDigit (jqt : JQTokenizer) (c : ℤ) : Classified Bool := testCharProp jqt.ccsid c CPROP_DIGIT

def isWhite (jqt : JQTokenizer) (c : ℤ) : Classified Bool := testCharProp jqt.ccsid c CPROP_WHITE

/-- `JTOKEN_LPAREN` to `JTOKEN_PERCENT`. -/
def punctuation (c : ℤ) : Option ℤ :=
  match c with
  | 0x28 => some (FIRST_REAL_TOKEN_ID + 4)
  | 0x29 => some (FIRST_REAL_TOKEN_ID + 5)
  | 0x5B => some (FIRST_REAL_TOKEN_ID + 6)
  | 0x5D => some (FIRST_REAL_TOKEN_ID + 7)
  | 0x7B => some (FIRST_REAL_TOKEN_ID + 8)
  | 0x7D => some (FIRST_REAL_TOKEN_ID + 9)
  | 0x2E => some (FIRST_REAL_TOKEN_ID + 10)
  | 0x2C => some (FIRST_REAL_TOKEN_ID + 11)
  | 0x7C => some (FIRST_REAL_TOKEN_ID + 12)
  | 0x3A => some (FIRST_REAL_TOKEN_ID + 13)
  | 0x3F => some (FIRST_REAL_TOKEN_ID + 14)
  | 0x2B => some (FIRST_REAL_TOKEN_ID + 15)
  | 0x2D => some (FIRST_REAL_TOKEN_ID + 16)
  | 0x2A => some (FIRST_REAL_TOKEN_ID + 17)
  | 0x2F => some (FIRST_REAL_TOKEN_ID + 18)
  | 0x25 => some (FIRST_REAL_TOKEN_ID + 19)
  | _ => none

/-- How the `switch` ends: the loop goes on, a token is found, or the function returns without
one. -/
inductive Turn
  | more (jqt : JQTokenizer)
  | token (tokenID : ℤ) (jqt : JQTokenizer)
  | invalid (jqt : JQTokenizer)

/-- `nothing to push back` at the end. -/
def pushBack (jqt : JQTokenizer) (c : ℤ) : JQTokenizer :=
  if c ≠ -1 then { jqt with pos := jqt.pos - 1 } else jqt

/-- The `switch` of the loop. `charPos` is the place of `c`, which the tokenizer has passed. -/
def jqtTurn (jqt : JQTokenizer) (charPos : ℕ) (c : ℤ) : Classified Turn :=
  match jqt.tokenState with
  | .STATE_INITIAL =>
    if c = -1 then pure (.token EOF_TOKEN { jqt with lastTokenStart := jqt.data.length })
    else do
      if (← isLetter jqt c) || c == 0x24 || c == 0x5F then
        return .more { jqt with tokenState := .STATE_IDENTIFIER, lastTokenStart := charPos }
      else if ← isDigit jqt c then
        return .more { jqt with tokenState := .STATE_INTEGER, lastTokenStart := charPos }
      else if ← isWhite jqt c then return .more jqt
      else if c = 0x22 then
        return .more { jqt with tokenState := .STATE_DQUOTE, lastTokenStart := charPos }
      else if c = 0x27 then
        return .more { jqt with tokenState := .STATE_SQUOTE, lastTokenStart := charPos }
      else
        match punctuation c with
        | some tokenID => return .token tokenID { jqt with lastTokenStart := charPos }
        | none => return .invalid jqt
  | .STATE_INTEGER => do
    if ← isDigit jqt c then return .more jqt
    else return .token JTOKEN_INTEGER (pushBack jqt c)
  | .STATE_IDENTIFIER => do
    if (← isLetter jqt c) || c == 0x24 || c == 0x5F then return .more jqt
    else return .token JTOKEN_IDENTIFIER (pushBack jqt c)
  | .STATE_DQUOTE =>
    if c = -1 then pure (.invalid jqt)
    else if c = 0x22 then pure (.token JTOKEN_DQUOTE_STRING jqt)
    else pure (.more jqt)
  -- No `break` ends this case, so that the `default` case returns for it.
  | .STATE_SQUOTE => pure (.invalid jqt)

def Turn.finish : Turn → ℤ × JQTokenizer
  | .token tokenID jqt =>
    (tokenID, { jqt with lastTokenEnd := jqt.pos, tokenState := .STATE_INITIAL })
  | .invalid jqt | .more jqt => (NO_VALID_TOKEN, jqt)

/-- The loop, on the bytes that are left. No state goes on at the end (`jqtTurn_end`). -/
def jqtLoop : List Byte → JQTokenizer → Classified (ℤ × JQTokenizer)
  | [], jqt => do return (← jqtTurn jqt jqt.pos (-1)).finish
  | b :: bytes, jqt => do
    match ← jqtTurn { jqt with pos := jqt.pos + 1 } jqt.pos b.toInt with
    | .more jqt => jqtLoop bytes jqt
    | turn => return turn.finish

def jqtToken (jqt : JQTokenizer) : Classified (ℤ × JQTokenizer) :=
  if jqt.data.length ≤ jqt.pos then
    pure (EOF_TOKEN, { jqt with lastTokenStart := jqt.pos, lastTokenEnd := jqt.pos })
  else jqtLoop (jqt.data.drop jqt.pos) jqt

/-! The bytes whose codes stay in the tables -/

def hasProp (ccsid : ℤ) (b : Byte) (prop : ℕ) : Bool :=
  (testCharProp ccsid b.toInt prop).result.toOption.getD false

/-- `b` is a byte below 0x80 that an identifier is continued by. -/
def identifierByte (ccsid : ℤ) (b : Byte) : Bool :=
  b.toNat < 128 && (hasProp ccsid b CPROP_LETTER || b.toInt == 0x24 || b.toInt == 0x5F)

def digitByte (ccsid : ℤ) (b : Byte) : Bool := b.toNat < 128 && hasProp ccsid b CPROP_DIGIT

/-- `b` is a byte below 0x80 that is rolled over before a token. -/
def whiteByte (ccsid : ℤ) (b : Byte) : Bool :=
  b.toNat < 128 && !identifierByte ccsid b && !digitByte ccsid b && hasProp ccsid b CPROP_WHITE

/-- The bytes that `p` holds for are followed by a byte, and this one is below 0x80. -/
def SpanEnds (p : Byte → Bool) (bytes : List Byte) : Prop :=
  (bytes.dropWhile p).head?.any (fun b => b.toNat < 128) = true

/-- At the first byte of a token: the end of the input and the byte 0xFF, which is taken for it,
are looked up nowhere, and what begins an identifier or a number is followed by its end. -/
def StartsWithin (ccsid : ℤ) : List Byte → Prop
  | [] => True
  | b :: bytes =>
    b.toInt = -1 ∨ b.toNat < 128 ∧
      if identifierByte ccsid b then SpanEnds (identifierByte ccsid) bytes
      else digitByte ccsid b → SpanEnds (digitByte ccsid) bytes

def TokenWithin (ccsid : ℤ) (bytes : List Byte) : TokenState → Prop
  | .STATE_INITIAL => StartsWithin ccsid (bytes.dropWhile (whiteByte ccsid))
  | .STATE_INTEGER => SpanEnds (digitByte ccsid) bytes
  | .STATE_IDENTIFIER => SpanEnds (identifierByte ccsid) bytes
  | .STATE_SQUOTE | .STATE_DQUOTE => True

/-- There is nothing left to read, or the rest of the token is within the tables. -/
def JQTokenizer.Within (jqt : JQTokenizer) : Prop :=
  jqt.pos < jqt.data.length → TokenWithin jqt.ccsid (jqt.data.drop jqt.pos) jqt.tokenState

theorem tableEntry_of_lt {table : List ℕ} {n : ℕ} (h : n < table.length) :
    tableEntry table n = .ok table[n] := by
  rw [tableEntry, if_pos (Int.natCast_nonneg n), Int.toNat_natCast, List.getElem?_eq_getElem h]
  rfl

theorem length_charProps : charProps.length = 256 := by decide +kernel

theorem length_cp1047to1208 : cp1047to1208.length = 256 := by decide +kernel

theorem cp1047to1208_lt : ∀ u ∈ cp1047to1208, u < 256 := by decide +kernel

/-- A code that has an entry is answered. -/
theorem result_testCharProp (ccsid : ℤ) {n : ℕ} (hn : n < 256) (prop : ℕ) :
    ∃ a, (testCharProp ccsid n prop).result = .ok a := by
  dsimp only [testCharProp]
  split_ifs
  · have hlt : n < cp1047to1208.length := by rwa [length_cp1047to1208]
    have hu : cp1047to1208[n] < charProps.length := by
      rw [length_charProps]
      exact cp1047to1208_lt _ (List.getElem_mem hlt)
    refine ⟨charProps[cp1047to1208[n]] &&& prop != 0, ?_⟩
    rw [tableEntry_of_lt hlt]
    change (tableEntry charProps cp1047to1208[n] >>= _) = _
    rw [tableEntry_of_lt hu]
    rfl
  · have hlt : n < charProps.length := by rwa [length_charProps]
    rw [tableEntry_of_lt hlt]
    exact ⟨_, rfl⟩
  · exact ⟨_, rfl⟩

/-- A byte below 0x80 is looked up in the table. -/
theorem testCharProp_of_lt {b : Byte} (h : b.toNat < 128) (ccsid : ℤ) (prop : ℕ) :
    testCharProp ccsid b.toInt prop = ⟨[b.toInt], Except.ok (hasProp ccsid b prop)⟩ := by
  obtain ⟨a, ha⟩ := result_testCharProp ccsid (n := b.toNat) (by omega) prop
  rw [← toInt_of_lt h] at ha
  refine Recorded.ext rfl ?_
  rw [ha, hasProp, ha]
  rfl

theorem not_within_bind {α β : Type} {m : Classified α} (f : α → Classified β)
    (h : ¬ m.Within) : ¬ Classified.Within (m >>= f) := fun hbind => h hbind.of_bind

theorem not_within_testCharProp {c : ℤ} (h : c < 0) (ccsid : ℤ) (prop : ℕ) :
    ¬ (testCharProp ccsid c prop).Within := by
  intro hwithin
  have := (hwithin c List.mem_cons_self).1
  omega

theorem within_singleton {b : Byte} (h : b.toNat < 128) : ∀ c ∈ [b.toInt], 0 ≤ c ∧ c ≤ 255 := by
  intro c hc
  rw [List.mem_singleton.mp hc, toInt_of_lt h]
  omega

theorem toInt_neg_of_le {b : Byte} (h : ¬ b.toNat < 128) : b.toInt < 0 := by
  rw [BitVec.toInt_eq_toNat_cond]
  omega

/-! One turn of the loop -/

section Loop

variable {jqt jqt' : JQTokenizer} {b : Byte} {bytes : List Byte} {codes : List ℤ} {turn : Turn}

theorem jqtLoop_of_more
    (h : jqtTurn { jqt with pos := jqt.pos + 1 } jqt.pos b.toInt = ⟨codes, .ok (.more jqt')⟩) :
    (jqtLoop (b :: bytes) jqt).events = codes ++ (jqtLoop bytes jqt').events := by
  rw [jqtLoop, h, Recorded.bind_of_ok _ rfl]

theorem jqtLoop_of_done (hdone : ∀ jqt', turn ≠ .more jqt')
    (h : jqtTurn { jqt with pos := jqt.pos + 1 } jqt.pos b.toInt = ⟨codes, .ok turn⟩) :
    (jqtLoop (b :: bytes) jqt).events = codes := by
  rw [jqtLoop, h, Recorded.bind_of_ok _ rfl]
  cases turn with
  | more jqt' => exact absurd rfl (hdone jqt')
  | token tokenID jqt' => exact List.append_nil codes
  | invalid jqt' => exact List.append_nil codes

theorem within_of_more
    (h : jqtTurn { jqt with pos := jqt.pos + 1 } jqt.pos b.toInt = ⟨codes, .ok (.more jqt')⟩) :
    (jqtLoop (b :: bytes) jqt).Within ↔
      (∀ c ∈ codes, 0 ≤ c ∧ c ≤ 255) ∧ (jqtLoop bytes jqt').Within := by
  rw [Classified.Within, Recorded.Every, jqtLoop_of_more h, List.forall_mem_append]
  rfl

theorem within_of_done (hdone : ∀ jqt', turn ≠ .more jqt')
    (h : jqtTurn { jqt with pos := jqt.pos + 1 } jqt.pos b.toInt = ⟨codes, .ok turn⟩) :
    (jqtLoop (b :: bytes) jqt).Within ↔ ∀ c ∈ codes, 0 ≤ c ∧ c ≤ 255 := by
  rw [Classified.Within, Recorded.Every, jqtLoop_of_done hdone h]

theorem not_within_jqtLoop
    (h : ¬ (jqtTurn { jqt with pos := jqt.pos + 1 } jqt.pos b.toInt).Within) :
    ¬ (jqtLoop (b :: bytes) jqt).Within := not_within_bind _ h

end Loop

/-- In the state `s` the turns pass over the bytes of `p`, and look every byte up. -/
structure PassesOver (ccsid : ℤ) (s : TokenState) (p : Byte → Bool) : Prop where
  low : ∀ b, p b = true → b.toNat < 128
  looksUp : ∀ jqt charPos c, jqt.tokenState = s → c < 0 → ¬ (jqtTurn jqt charPos c).Within
  turn : ∀ jqt charPos b, jqt.tokenState = s → jqt.ccsid = ccsid → b.toNat < 128 →
    ∃ tokenID jqt', jqtTurn jqt charPos b.toInt =
      ⟨[b.toInt], .ok (if p b then .more jqt else .token tokenID jqt')⟩

/-- The codes of a number or an identifier. By induction on the bytes. -/
theorem PassesOver.within_iff {ccsid : ℤ} {s : TokenState} {p : Byte → Bool}
    (hp : PassesOver ccsid s p) {bytes : List Byte} {jqt : JQTokenizer}
    (hs : jqt.tokenState = s) (hccsid : jqt.ccsid = ccsid) :
    (jqtLoop bytes jqt).Within ↔ SpanEnds p bytes := by
  induction bytes generalizing jqt with
  | nil =>
    refine iff_of_false ?_ Bool.false_ne_true
    exact not_within_bind _ (hp.looksUp jqt _ (-1) hs (by decide))
  | cons b bytes ih =>
    by_cases hb : b.toNat < 128
    · obtain ⟨tokenID, jqt', hturn⟩ :=
        hp.turn { jqt with pos := jqt.pos + 1 } jqt.pos b hs hccsid hb
      by_cases hpb : p b = true
      · rw [if_pos hpb] at hturn
        rw [within_of_more hturn, and_iff_right (within_singleton hb), SpanEnds,
          List.dropWhile_cons_of_pos hpb]
        exact ih hs hccsid
      · rw [if_neg hpb] at hturn
        rw [within_of_done (fun _ h => by cases h) hturn, SpanEnds,
          List.dropWhile_cons_of_neg hpb]
        exact iff_of_true (within_singleton hb) (decide_eq_true hb)
    · refine iff_of_false
        (not_within_jqtLoop (hp.looksUp _ _ _ hs (toInt_neg_of_le hb))) ?_
      rw [SpanEnds, List.dropWhile_cons_of_neg fun h => hb (hp.low b h)]
      exact fun h => hb (of_decide_eq_true h)

theorem passesOver_integer (ccsid : ℤ) :
    PassesOver ccsid .STATE_INTEGER (digitByte ccsid) where
  low b h := of_decide_eq_true (Bool.and_eq_true_iff.mp h).1
  looksUp jqt charPos c hs hc := by
    rw [jqtTurn, hs]
    exact not_within_bind _ (not_within_testCharProp hc _ _)
  turn jqt charPos b hs hccsid hb := by
    refine ⟨JTOKEN_INTEGER, pushBack jqt b.toInt, ?_⟩
    rw [jqtTurn, hs]
    dsimp only [isDigit]
    rw [testCharProp_of_lt hb, Recorded.bind_of_ok _ rfl, hccsid, digitByte,
      decide_eq_true hb, Bool.true_and]
    split_ifs <;> rfl

theorem passesOver_identifier (ccsid : ℤ) :
    PassesOver ccsid .STATE_IDENTIFIER (identifierByte ccsid) where
  low b h := of_decide_eq_true (Bool.and_eq_true_iff.mp h).1
  looksUp jqt charPos c hs hc := by
    rw [jqtTurn, hs]
    exact not_within_bind _ (not_within_testCharProp hc _ _)
  turn jqt charPos b hs hccsid hb := by
    refine ⟨JTOKEN_IDENTIFIER, pushBack jqt b.toInt, ?_⟩
    rw [jqtTurn, hs]
    dsimp only [isLetter]
    rw [testCharProp_of_lt hb, Recorded.bind_of_ok _ rfl, hccsid, identifierByte,
      decide_eq_true hb, Bool.true_and]
    dsimp only
    rw [Bool.or_assoc]
    split_ifs <;> rfl

theorem jqtTurn_squote {jqt : JQTokenizer} (hs : jqt.tokenState = .STATE_SQUOTE) (charPos : ℕ)
    (c : ℤ) : jqtTurn jqt charPos c = ⟨[], .ok (.invalid jqt)⟩ := by
  rw [jqtTurn, hs]
  rfl

theorem jqtTurn_dquote {jqt : JQTokenizer} (hs : jqt.tokenState = .STATE_DQUOTE) (charPos : ℕ)
    (c : ℤ) : jqtTurn jqt charPos c = ⟨[], .ok
      (if c = -1 then .invalid jqt
      else if c = 0x22 then .token JTOKEN_DQUOTE_STRING jqt
      else .more jqt)⟩ := by
  rw [jqtTurn, hs]
  dsimp only
  split_ifs <;> rfl

/-- The state after a single quote looks nothing up. -/
theorem codes_singleQuoted {bytes : List Byte} {jqt : JQTokenizer}
    (hs : jqt.tokenState = .STATE_SQUOTE) : (jqtLoop bytes jqt).events = [] := by
  cases bytes with
  | nil =>
    rw [jqtLoop, jqtTurn_squote hs]
    rfl
  | cons b bytes =>
    have hturn := jqtTurn_squote
      (show { jqt with pos := jqt.pos + 1 }.tokenState = _ from hs) jqt.pos b.toInt
    exact jqtLoop_of_done (fun _ h => by cases h) hturn

/-- Nor does the state after a double quote. By induction on the bytes. -/
theorem codes_doubleQuoted {bytes : List Byte} {jqt : JQTokenizer}
    (hs : jqt.tokenState = .STATE_DQUOTE) : (jqtLoop bytes jqt).events = [] := by
  induction bytes generalizing jqt with
  | nil =>
    rw [jqtLoop, jqtTurn_dquote hs]
    rfl
  | cons b bytes ih =>
    have hturn := jqtTurn_dquote
      (show { jqt with pos := jqt.pos + 1 }.tokenState = _ from hs) jqt.pos b.toInt
    split_ifs at hturn
    · exact jqtLoop_of_done (fun _ h => by cases h) hturn
    · exact jqtLoop_of_done (fun _ h => by cases h) hturn
    · rw [jqtLoop_of_more hturn]
      exact ih hs

section Initial

variable {jqt : JQTokenizer} {b : Byte} {bytes : List Byte}

/-- The turn on a byte below 0x80, in the order in which the properties are tested. -/
theorem jqtTurn_initial (hs : jqt.tokenState = .STATE_INITIAL) (charPos : ℕ)
    (hb : b.toNat < 128) : jqtTurn jqt charPos b.toInt =
      if identifierByte jqt.ccsid b then
        ⟨[b.toInt],
          .ok (.more { jqt with tokenState := .STATE_IDENTIFIER, lastTokenStart := charPos })⟩
      else if digitByte jqt.ccsid b then
        ⟨[b.toInt, b.toInt],
          .ok (.more { jqt with tokenState := .STATE_INTEGER, lastTokenStart := charPos })⟩
      else if whiteByte jqt.ccsid b then ⟨[b.toInt, b.toInt, b.toInt], .ok (.more jqt)⟩
      else ⟨[b.toInt, b.toInt, b.toInt], .ok
        (if b.toInt = 0x22 then
          .more { jqt with tokenState := .STATE_DQUOTE, lastTokenStart := charPos }
        else if b.toInt = 0x27 then
          .more { jqt with tokenState := .STATE_SQUOTE, lastTokenStart := charPos }
        else
          match punctuation b.toInt with
          | some tokenID => .token tokenID { jqt with lastTokenStart := charPos }
          | none => .invalid jqt)⟩ := by
  have hend : b.toInt ≠ -1 := by
    rw [toInt_of_lt hb]
    omega
  rw [jqtTurn, hs]
  dsimp only [isLetter, isDigit, isWhite]
  rw [if_neg hend, testCharProp_of_lt hb, Recorded.bind_of_ok _ rfl]
  dsimp only
  by_cases hid : identifierByte jqt.ccsid b = true
  · have hcond := hid
    rw [identifierByte, decide_eq_true hb, Bool.true_and] at hcond
    rw [if_pos hid, if_pos hcond]
    rfl
  · have hcond := hid
    rw [identifierByte, decide_eq_true hb, Bool.true_and] at hcond
    rw [if_neg hid, if_neg hcond, testCharProp_of_lt hb, Recorded.bind_of_ok _ rfl]
    dsimp only
    rw [digitByte, decide_eq_true hb, Bool.true_and]
    by_cases hdigit : hasProp jqt.ccsid b CPROP_DIGIT = true
    · rw [if_pos hdigit, if_pos hdigit]
      rfl
    · rw [if_neg hdigit, if_neg hdigit, testCharProp_of_lt hb, Recorded.bind_of_ok _ rfl,
        whiteByte, digitByte, decide_eq_true hb, Bool.true_and, Bool.true_and,
        Bool.eq_false_of_not_eq_true hid, Bool.eq_false_of_not_eq_true hdigit, Bool.not_false,
        Bool.true_and, Bool.true_and]
      split_ifs
      · rfl
      · rfl
      · rfl
      · cases punctuation b.toInt <;> rfl

theorem whiteByte_eq_false (h : identifierByte jqt.ccsid b = true ∨ digitByte jqt.ccsid b = true) :
    ¬ whiteByte jqt.ccsid b = true := by
  intro hwhite
  obtain ⟨hwhite, -⟩ := Bool.and_eq_true_iff.mp hwhite
  obtain ⟨hwhite, hdigit⟩ := Bool.and_eq_true_iff.mp hwhite
  obtain ⟨-, hid⟩ := Bool.and_eq_true_iff.mp hwhite
  rcases h with h | h
  · exact Bool.false_ne_true ((Bool.not_eq_true' _).mp hid ▸ h)
  · exact Bool.false_ne_true ((Bool.not_eq_true' _).mp hdigit ▸ h)

/-- The punctuation, the quotes and what is none of these look up nothing more. -/
theorem within_of_other (hs : jqt.tokenState = .STATE_INITIAL) (hb : b.toNat < 128)
    (hid : ¬ identifierByte jqt.ccsid b = true) (hdigit : ¬ digitByte jqt.ccsid b = true)
    (hwhite : ¬ whiteByte jqt.ccsid b = true) : (jqtLoop (b :: bytes) jqt).Within := by
  have hturn := jqtTurn_initial
    (show { jqt with pos := jqt.pos + 1 }.tokenState = _ from hs) jqt.pos hb
  rw [if_neg hid, if_neg hdigit, if_neg hwhite] at hturn
  have hcodes : ∀ c ∈ [b.toInt, b.toInt, b.toInt], 0 ≤ c ∧ c ≤ 255 := by
    intro c hc
    exact within_singleton hb c (by simpa using hc)
  split_ifs at hturn
  · exact (within_of_more hturn).mpr
      ⟨hcodes, Recorded.every_of_events_eq_nil (codes_doubleQuoted rfl)⟩
  · exact (within_of_more hturn).mpr
      ⟨hcodes, Recorded.every_of_events_eq_nil (codes_singleQuoted rfl)⟩
  · cases hpunctuation : punctuation b.toInt with
    | none =>
      rw [hpunctuation] at hturn
      exact (within_of_done (fun _ h => by cases h) hturn).mpr hcodes
    | some tokenID =>
      rw [hpunctuation] at hturn
      exact (within_of_done (fun _ h => by cases h) hturn).mpr hcodes

/-- A byte above 0x7F is looked up as a negative code, but for the one that is taken for the
end. -/
theorem within_high_iff (hs : jqt.tokenState = .STATE_INITIAL) (hb : ¬ b.toNat < 128) :
    (jqtLoop (b :: bytes) jqt).Within ↔
      StartsWithin jqt.ccsid ((b :: bytes).dropWhile (whiteByte jqt.ccsid)) := by
  have hwhite : ¬ whiteByte jqt.ccsid b = true := by
    intro h
    rw [whiteByte, decide_eq_false hb, Bool.false_and, Bool.false_and, Bool.false_and] at h
    exact Bool.false_ne_true h
  rw [List.dropWhile_cons_of_neg hwhite, StartsWithin]
  by_cases hend : b.toInt = -1
  · have hturn : jqtTurn { jqt with pos := jqt.pos + 1 } jqt.pos b.toInt =
        ⟨[], .ok (.token EOF_TOKEN
          { jqt with pos := jqt.pos + 1, lastTokenStart := jqt.data.length })⟩ := by
      rw [jqtTurn, hend]
      dsimp only
      rw [hs]
      rfl
    exact iff_of_true
      (Recorded.every_of_events_eq_nil (jqtLoop_of_done (fun _ h => by cases h) hturn))
      (.inl hend)
  · refine iff_of_false (not_within_jqtLoop ?_) ?_
    · rw [jqtTurn]
      dsimp only
      rw [hs]
      dsimp only
      rw [if_neg hend]
      exact not_within_bind _ (not_within_testCharProp (toInt_neg_of_le hb) _ _)
    · rintro (h | h)
      · exact hend h
      · exact hb h.1

/-- The codes from the start of a token on. By induction on the bytes, white ones first. -/
theorem within_initial_iff (hs : jqt.tokenState = .STATE_INITIAL) :
    (jqtLoop bytes jqt).Within ↔
      StartsWithin jqt.ccsid (bytes.dropWhile (whiteByte jqt.ccsid)) := by
  induction bytes generalizing jqt with
  | nil =>
    have hturn : jqtTurn jqt jqt.pos (-1) =
        ⟨[], .ok (.token EOF_TOKEN { jqt with lastTokenStart := jqt.data.length })⟩ := by
      rw [jqtTurn, hs]
      rfl
    rw [jqtLoop, hturn, Recorded.bind_of_ok _ rfl]
    exact iff_of_true (Recorded.every_of_events_eq_nil rfl) trivial
  | cons b bytes ih =>
    by_cases hb : b.toNat < 128
    · have hturn := jqtTurn_initial
        (show { jqt with pos := jqt.pos + 1 }.tokenState = _ from hs) jqt.pos hb
      have hend : b.toInt ≠ -1 := by
        rw [toInt_of_lt hb]
        omega
      have htwo : ∀ c ∈ [b.toInt, b.toInt], 0 ≤ c ∧ c ≤ 255 := by
        intro c hc
        exact within_singleton hb c (by simpa using hc)
      by_cases hid : identifierByte jqt.ccsid b = true
      · rw [if_pos hid] at hturn
        rw [List.dropWhile_cons_of_neg (whiteByte_eq_false (.inl hid)), StartsWithin, if_pos hid,
          or_iff_right hend, and_iff_right hb, within_of_more hturn,
          and_iff_right (within_singleton hb)]
        exact (passesOver_identifier jqt.ccsid).within_iff rfl rfl
      · rw [if_neg hid] at hturn
        by_cases hdigit : digitByte jqt.ccsid b = true
        · rw [if_pos hdigit] at hturn
          rw [List.dropWhile_cons_of_neg (whiteByte_eq_false (.inr hdigit)), StartsWithin,
            if_neg hid, or_iff_right hend, and_iff_right hb, forall_prop_of_true hdigit,
            within_of_more hturn, and_iff_right htwo]
          exact (passesOver_integer jqt.ccsid).within_iff rfl rfl
        · rw [if_neg hdigit] at hturn
          by_cases hwhite : whiteByte jqt.ccsid b = true
          · rw [if_pos hwhite] at hturn
            have hthree : ∀ c ∈ [b.toInt, b.toInt, b.toInt], 0 ≤ c ∧ c ≤ 255 := by
              intro c hc
              exact within_singleton hb c (by simpa using hc)
            rw [List.dropWhile_cons_of_pos hwhite, within_of_more hturn, and_iff_right hthree]
            exact ih hs
          · rw [List.dropWhile_cons_of_neg hwhite, StartsWithin, if_neg hid]
            exact iff_of_true (within_of_other hs hb hid hdigit hwhite)
              (.inr ⟨hb, fun h => absurd h hdigit⟩)
    · exact within_high_iff hs hb

end Initial

/-- Every call of `testCharProp` passes a code that the table has an entry for exactly when the
rest of the token does not reach the end of the input, nor a byte above 0x7F, where a letter or
a digit is asked for. -/
theorem jqtToken_within_iff (jqt : JQTokenizer) :
    (∀ c ∈ (jqtToken jqt).events, 0 ≤ c ∧ c ≤ 255) ↔ jqt.Within := by
  rw [jqtToken, JQTokenizer.Within]
  by_cases hpos : jqt.data.length ≤ jqt.pos
  · rw [if_pos hpos]
    exact iff_of_true (Recorded.every_of_events_eq_nil rfl) fun h => absurd h (by omega)
  · rw [if_neg hpos, forall_prop_of_true (by omega)]
    change (jqtLoop (jqt.data.drop jqt.pos) jqt).Within ↔ _
    cases hs : jqt.tokenState with
    | STATE_INITIAL => exact within_initial_iff hs
    | STATE_INTEGER => exact (passesOver_integer jqt.ccsid).within_iff hs rfl
    | STATE_IDENTIFIER => exact (passesOver_identifier jqt.ccsid).within_iff hs rfl
    | STATE_SQUOTE =>
      exact iff_of_true (Recorded.every_of_events_eq_nil (codes_singleQuoted hs)) trivial
    | STATE_DQUOTE =>
      exact iff_of_true (Recorded.every_of_events_eq_nil (codes_doubleQuoted hs)) trivial

/-- The name of `.ab` ends with the input, whose end is looked up as the code -1. -/
theorem jqtToken_outside : ¬ ∀ jqt, ∀ c ∈ (jqtToken jqt).events, 0 ≤ c ∧ c ≤ 255 := by
  intro h
  have hend := h ⟨UTF8, .STATE_INITIAL, ascii ".ab", 1, 0, 0⟩ (-1) (by decide +kernel)
  exact absurd hend.1 (by decide)

end Jq
end ZoweCommon
