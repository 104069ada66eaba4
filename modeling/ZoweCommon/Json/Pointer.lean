import Mathlib.Algebra.Group.Nat.Defs
import ZoweCommon.Basic.CString
import ZoweCommon.Lib.ReferenceTokens

/-! JSON pointers, as texts and as the keys that they lead through. -/
namespace ZoweCommon
namespace JsonPointer

open ReferenceTokens

def SLASH : Byte := 0x2F
def TILDE : Byte := 0x7E
def ZERO : Byte := 0x30
def ONE : Byte := 0x31

inductive JsonPointerType
  | NORMAL_KEY
  | INTEGER
  deriving DecidableEq, Repr

structure JsonPointerElement where
  string : CString
  type : JsonPointerType
  deriving DecidableEq

def isDigit (c : Byte) : Bool := 0x30 ≤ c.toNat && c.toNat ≤ 0x39

/-- The characters of a token up to its end, with those that are stored already. -/
def readToken (pendingTilde allDigits : Bool) (token : List Byte) :
    List Byte → Option (List Byte × Bool)
  | [] => if pendingTilde then none else some (token, allDigits)
  | c :: text =>
    let allDigits := allDigits && isDigit c
    if pendingTilde then
      if c = ZERO then readToken false allDigits (token ++ [TILDE]) text
      else if c = ONE then readToken false allDigits (token ++ [SLASH]) text
      else none
    else if c = TILDE then readToken true allDigits token text
    else readToken false allDigits (token ++ [c]) text

def makePointerElement (token : List Byte) (allDigits : Bool) : JsonPointerElement where
  string := .ofBytes token
  type := if allDigits then .INTEGER else .NORMAL_KEY

/-- The elements of what has not been read, after those that are in the list already. A turn of the
loop takes a character at least. -/
def readElements : ℕ → List JsonPointerElement → List Byte → Option (List JsonPointerElement)
  | 0, _, _ => none
  | _ + 1, list, [] => some list
  | fuel + 1, list, text => do
    let (token, allDigits) ← readToken false true [] (text.takeWhile (· ≠ SLASH))
    let list := list ++ [makePointerElement token allDigits]
    match text.dropWhile (· ≠ SLASH) with
    | [] => some list
    | _ :: text => readElements fuel list text

def intLength (s : CString) : ℤ := (BitVec.ofNat 32 s.strlen).toInt

/-- What the parser reads of a string, from a length on that is positive. -/
def scanned (s : CString) : List Byte := s.bytes.take (intLength s).toNat

/-- The elements, or a null pointer. -/
def parseJsonPointer (s : CString) : Option (List JsonPointerElement) :=
  if intLength s = 0 then some []
  else if s.bytes.head? ≠ some SLASH then none
  else readElements (s.strlen + 1) [] (scanned s).tail

/-- The characters that are special in a pointer. -/
def alphabet : Alphabet Byte where
  tilde := TILDE
  slash := SLASH
  zero := ZERO
  one := ONE
  tilde_ne_slash := by decide
  zero_ne_one := by decide
  zero_ne_tilde := by decide
  one_ne_tilde := by decide
  zero_ne_slash := by decide
  one_ne_slash := by decide

theorem noNul_escape {key : List Byte} (h : NoNul key) : NoNul (escape alphabet key) := by
  induction key with
  | nil => exact NoNul.nil
  | cons c key ih =>
    obtain ⟨hc, hkey⟩ := List.forall_mem_cons.mp h
    have htilde : alphabet.tilde ≠ 0 := by decide
    rw [escape]
    split_ifs
    · exact NoNul.cons htilde (NoNul.cons (by decide) (ih hkey))
    · exact NoNul.cons htilde (NoNul.cons (by decide) (ih hkey))
    · exact NoNul.cons hc (ih hkey)

theorem noNul_join (keys : List CString) : NoNul (join alphabet (keys.map CString.bytes)) := by
  intro b hb
  obtain ⟨key, hkey, hmem⟩ := List.mem_flatMap.mp hb
  obtain ⟨s, -, rfl⟩ := List.mem_map.mp hkey
  have hslash : alphabet.slash ≠ 0 := by decide
  exact NoNul.cons hslash (noNul_escape s.noNul) b hmem

/-- The pointer for some keys: each is escaped and has a slash before it. -/
def encode (keys : List CString) : CString where
  bytes := join alphabet (keys.map CString.bytes)
  noNul := noNul_join keys

/-- A string that is no pointer. -/
def Malformed (s : CString) : Prop :=
  s.bytes ≠ [] ∧ s.bytes.head? ≠ some SLASH ∨ BadTilde alphabet s.bytes

/-- What is wrong with the string is where the parser looks. -/
def WrongWithin (s : CString) : Prop :=
  intLength s ≠ 0 ∧ (s.bytes.head? ≠ some SLASH ∨ BadTilde alphabet (scanned s))

/-- The keys come back from their pointer. -/
def Inverts (keys : List CString) : Prop :=
  ∃ elements, parseJsonPointer (encode keys) = some elements ∧
    elements.map JsonPointerElement.string = keys

def Rejects (s : CString) : Prop := Malformed s → parseJsonPointer s = none

section Reading

variable {text token : List Byte} {list : List JsonPointerElement}

theorem readToken_tilde (d : Bool) (c : Byte) :
    readToken false d token (alphabet.tilde :: c :: text) =
      if c = alphabet.zero then
        readToken false (d && isDigit TILDE && isDigit c) (token ++ [alphabet.tilde]) text
      else if c = alphabet.one then
        readToken false (d && isDigit TILDE && isDigit c) (token ++ [alphabet.slash]) text
      else none := rfl

theorem readToken_other {c : Byte} (h : c ≠ alphabet.tilde) (d : Bool) :
    readToken false d token (c :: text) = readToken false (d && isDigit c) (token ++ [c]) text := by
  rw [readToken, if_neg Bool.false_ne_true]
  exact if_neg h

theorem readToken_eq (d : Bool) (token text : List Byte) :
    readToken false d token text =
      (unescape alphabet text).map fun rest => (token ++ rest, d && text.all isDigit) := by
  induction text using unescape.induct alphabet generalizing d token with
  | case1 =>
    rw [unescape, List.all_nil, Bool.and_true, Option.map_some, List.append_nil]
    rfl
  | case2 =>
    rw [unescape.eq_2, if_pos rfl]
    rfl
  | case3 c hc =>
    rw [unescape.eq_2, if_neg hc, readToken_other hc, List.all_cons, List.all_nil, Bool.and_true]
    rfl
  | case4 text ih =>
    rw [unescape_zero, readToken_tilde, if_pos rfl, ih, Option.map_map]
    simp only [List.append_assoc, List.all_cons, Bool.and_assoc]
    rfl
  | case5 text _ ih =>
    rw [unescape_one, readToken_tilde, if_neg alphabet.zero_ne_one.symm, if_pos rfl, ih,
      Option.map_map]
    simp only [List.append_assoc, List.all_cons, Bool.and_assoc]
    rfl
  | case6 c text hzero hone =>
    rw [unescape, if_pos rfl, if_neg hzero, if_neg hone, readToken_tilde, if_neg hzero, if_neg hone]
    rfl
  | case7 c c' text hc ih =>
    rw [unescape_cons hc, readToken_other hc, ih, Option.map_map]
    simp only [List.append_assoc, List.all_cons, Bool.and_assoc]
    rfl

theorem takeWhile_slash (hslash : SLASH ∉ text) (rest : List Byte) :
    (text ++ SLASH :: rest).takeWhile (· ≠ SLASH) = text ∧
      (text ++ SLASH :: rest).dropWhile (· ≠ SLASH) = SLASH :: rest := by
  have hall : ∀ b ∈ text, (decide (b ≠ SLASH)) = true := by
    intro b hb
    exact decide_eq_true fun heq => hslash (heq ▸ hb)
  rw [List.takeWhile_append_of_pos hall, List.dropWhile_append_of_pos hall]
  exact ⟨List.append_nil text, rfl⟩

theorem takeWhile_last (hslash : SLASH ∉ text) :
    text.takeWhile (· ≠ SLASH) = text ∧ text.dropWhile (· ≠ SLASH) = [] := by
  have hall : ∀ b ∈ text, (decide (b ≠ SLASH)) = true := by
    intro b hb
    exact decide_eq_true fun heq => hslash (heq ▸ hb)
  exact ⟨List.takeWhile_eq_self_iff.mpr hall, List.dropWhile_eq_nil_iff.mpr hall⟩

theorem readElements_last {fuel : ℕ} (hslash : SLASH ∉ text) (hne : text ≠ []) :
    readElements (fuel + 1) list text = (unescape alphabet text).map fun token =>
      list ++ [makePointerElement token (text.all isDigit)] := by
  obtain ⟨htake, hdrop⟩ := takeWhile_last hslash
  cases text with
  | nil => exact absurd rfl hne
  | cons c text =>
    rw [readElements, htake, readToken_eq]
    cases unescape alphabet (c :: text) with
    | none => rfl
    | some token =>
      simp only [Option.map_some, Option.bind_eq_bind, Option.bind_some, List.nil_append, hdrop]
      rfl
    exact List.cons_ne_nil _ _

theorem readElements_slash {fuel : ℕ} (hslash : SLASH ∉ text) (rest : List Byte) :
    readElements (fuel + 1) list (text ++ SLASH :: rest) =
      (unescape alphabet text).bind fun token =>
        readElements fuel (list ++ [makePointerElement token (text.all isDigit)]) rest := by
  obtain ⟨htake, hdrop⟩ := takeWhile_slash hslash rest
  rw [readElements, htake, readToken_eq]
  · cases unescape alphabet text with
    | none => rfl
    | some token =>
      simp only [Option.map_some, Option.bind_eq_bind, Option.bind_some, List.nil_append, hdrop]
      rfl
  · exact List.append_ne_nil_of_right_ne_nil _ (List.cons_ne_nil _ _)

def elementOf (token : List Byte) : JsonPointerElement :=
  makePointerElement token (token.all isDigit)

theorem all_isDigit_escape (token : List Byte) :
    (escape alphabet token).all isDigit = token.all isDigit := by
  have htilde : isDigit alphabet.tilde = false := rfl
  have hslash : isDigit alphabet.slash = false := rfl
  induction token with
  | nil => rfl
  | cons c token ih =>
    rw [escape]
    split_ifs with hc hc
    · simp only [List.all_cons, hc, htilde, Bool.false_and]
    · simp only [List.all_cons, hc, htilde, hslash, Bool.false_and]
    · rw [List.all_cons, List.all_cons, ih]

theorem elementOf_eq (hslash : SLASH ∉ text) (h : unescape alphabet text = some token) :
    makePointerElement token (text.all isDigit) = elementOf token := by
  rw [elementOf, ← all_isDigit_escape token, escape_of_unescape hslash h]

theorem readElements_eq {fuel : ℕ} (hfuel : text.length < fuel) :
    readElements fuel list text =
      (tokensOf alphabet text).map fun tokens => list ++ tokens.map elementOf := by
  induction text using slash_induction alphabet generalizing fuel list with
  | nil =>
    obtain ⟨fuel, rfl⟩ := Nat.exists_eq_add_of_lt hfuel
    rw [tokensOf_nil, Option.map_some, List.map_nil, List.append_nil]
    rfl
  | last part hslash hne =>
    obtain ⟨fuel, rfl⟩ := Nat.exists_eq_add_of_lt hfuel
    rw [readElements_last hslash hne, tokensOf_last hslash hne, Option.map_map]
    cases hpart : unescape alphabet part with
    | none => rfl
    | some token =>
      rw [Option.map_some, Option.map_some, elementOf_eq hslash hpart]
      rfl
  | slash part rest hslash ih =>
    rw [List.length_append, List.length_cons] at hfuel
    obtain ⟨fuel, rfl⟩ := Nat.exists_eq_succ_of_ne_zero (Nat.ne_zero_of_lt hfuel)
    have hless : rest.length < fuel := by omega
    rw [tokensOf_slash hslash]
    refine (readElements_slash hslash rest).trans ?_
    cases hpart : unescape alphabet part with
    | none => rfl
    | some token =>
      rw [Option.bind_some, Option.bind_some, ih hless, elementOf_eq hslash hpart, Option.map_map]
      simp only [List.append_assoc]
      rfl

end Reading

section Inverting

variable {s : CString} {keys : List CString}

theorem intLength_of_lt (h : s.strlen < 2 ^ 31) : intLength s = s.strlen := by
  have hnat : (BitVec.ofNat 32 s.strlen).toNat = s.strlen := by
    rw [BitVec.toNat_ofNat]
    exact Nat.mod_eq_of_lt (by omega)
  unfold intLength
  rw [BitVec.toInt_eq_toNat_of_lt (by omega), hnat]

theorem intLength_lt (h : ¬s.strlen < 2 ^ 31) : intLength s < s.strlen := by
  unfold intLength
  have hlt := @BitVec.toInt_lt 32 (BitVec.ofNat 32 s.strlen)
  omega

theorem length_scanned_le (s : CString) : (scanned s).length ≤ s.strlen := by
  unfold scanned
  rw [List.length_take]
  exact Nat.min_le_right _ _

theorem parseJsonPointer_eq (s : CString) : parseJsonPointer s =
    if intLength s = 0 then some []
    else if s.bytes.head? ≠ some SLASH then none
    else (tokensOf alphabet (scanned s).tail).map fun tokens => tokens.map elementOf := by
  have hlength : (scanned s).tail.length < s.strlen + 1 := by
    have hle := length_scanned_le s
    rw [List.length_tail]
    omega
  unfold parseJsonPointer
  rw [readElements_eq hlength]
  simp only [List.nil_append]

/-- A null pointer comes of a string exactly if the parser sees what is wrong with it. -/
theorem parseJsonPointer_eq_none : parseJsonPointer s = none ↔ WrongWithin s := by
  rw [parseJsonPointer_eq]
  unfold WrongWithin
  split_ifs with hzero hhead
  · exact iff_of_false nofun fun h => h.1 hzero
  · exact iff_of_true rfl ⟨hzero, .inl hhead⟩
  · have htail : BadTilde alphabet (scanned s) ↔ BadTilde alphabet (scanned s).tail := by
      cases hscanned : scanned s with
      | nil => exact Iff.rfl
      | cons c text =>
        have hc : some c = s.bytes.head? := by
          unfold scanned at hscanned
          cases hbytes : s.bytes with
          | nil =>
            rw [hbytes, List.take_nil] at hscanned
            cases hscanned
          | cons d bytes =>
            cases hlength : (intLength s).toNat with
            | zero =>
              rw [hlength] at hscanned
              cases hscanned
            | succ n =>
              rw [hbytes, hlength, List.take_succ_cons] at hscanned
              rw [(List.cons.inj hscanned).1]
              rfl
        have hne : c ≠ alphabet.tilde := by
          rw [not_not.mp hhead] at hc
          rw [Option.some.inj hc]
          exact alphabet.tilde_ne_slash.symm
        exact badTilde_cons hne
    rw [Option.map_eq_none_iff, tokensOf_eq_none, and_iff_right hzero, htail]
    exact (or_iff_right hhead).symm

theorem scanned_of_lt (h : s.strlen < 2 ^ 31) : scanned s = s.bytes := by
  unfold scanned
  rw [intLength_of_lt h]
  exact List.take_length

theorem wrongWithin_of_lt (h : s.strlen < 2 ^ 31) (hwrong : Malformed s) : WrongWithin s := by
  have hne : s.bytes ≠ [] := by
    obtain ⟨hne, -⟩ | ⟨a, b, hbytes, -⟩ := hwrong
    · exact hne
    · rw [hbytes]
      exact List.append_ne_nil_of_right_ne_nil _ (List.cons_ne_nil _ _)
  have hpos := List.length_pos_of_ne_nil hne
  refine ⟨?_, ?_⟩
  · rw [intLength_of_lt h]
    unfold CString.strlen
    omega
  · rw [scanned_of_lt h]
    exact hwrong.imp_left And.right

theorem strings_elementOf (tokens : List (List Byte)) :
    (tokens.map elementOf).map JsonPointerElement.string = tokens.map .ofBytes := by
  rw [List.map_map]
  rfl

theorem ofBytes_keys (keys : List CString) : (keys.map CString.bytes).map .ofBytes = keys := by
  rw [List.map_map]
  exact (List.map_congr_left fun s _ => CString.ofBytes_bytes s).trans (List.map_id keys)

/-- The keys come back, but for the last one if it is empty. -/
theorem parseJsonPointer_encode (h : (encode keys).strlen < 2 ^ 31) :
    ∃ elements, parseJsonPointer (encode keys) = some elements ∧
      elements.map JsonPointerElement.string =
        (Segments.dropEmptyLast (keys.map CString.bytes)).map .ofBytes := by
  cases keys with
  | nil => exact ⟨[], rfl, rfl⟩
  | cons key keys =>
    have hbytes : (encode (key :: keys)).bytes =
        SLASH :: (escape alphabet key.bytes ++ join alphabet (keys.map CString.bytes)) := rfl
    have hlength : intLength (encode (key :: keys)) ≠ 0 := by
      rw [intLength_of_lt h]
      unfold CString.strlen
      rw [hbytes, List.length_cons]
      omega
    have hhead : ¬(encode (key :: keys)).bytes.head? ≠ some SLASH := by
      rw [hbytes]
      exact not_not.mpr rfl
    refine ⟨_, ?_, strings_elementOf _⟩
    rw [parseJsonPointer_eq, if_neg hlength, if_neg hhead, scanned_of_lt h, hbytes, List.tail_cons,
      tokensOf_join_cons]
    rfl

theorem noNul_of_tokensOf {tokens : List (List Byte)} {token : List Byte}
    (h : tokensOf alphabet (scanned s).tail = some tokens) (htoken : token ∈ tokens) :
    NoNul token := by
  intro b hb
  have hslash : alphabet.slash ≠ 0 := by decide
  obtain rfl | hmem := mem_of_tokensOf h htoken hb
  · exact hslash
  · exact s.noNul b (List.mem_of_mem_take (List.mem_of_mem_tail hmem))

/-- The keys of a pointer, with their slashes, are not longer than what was read of it. -/
theorem strlen_encode_le {elements : List JsonPointerElement}
    (hrun : parseJsonPointer s = some elements)
    (hkeys : elements.map JsonPointerElement.string = keys) :
    (encode keys).strlen ≤ max 1 (scanned s).length := by
  rw [parseJsonPointer_eq] at hrun
  split_ifs at hrun
  · cases hrun
    rw [← hkeys]
    exact Nat.zero_le _
  · obtain ⟨tokens, htokens, rfl⟩ := Option.map_eq_some_iff.mp hrun
    have hbytes : keys.map CString.bytes = tokens := by
      rw [← hkeys, strings_elementOf, List.map_map]
      exact (List.map_congr_left fun token htoken =>
        CString.ofBytes_of_noNul (noNul_of_tokensOf htokens htoken)).trans (List.map_id tokens)
    have hle := length_join_le htokens
    rw [List.length_tail] at hle
    have hstrlen : (encode keys).strlen = (join alphabet (keys.map CString.bytes)).length := rfl
    rw [hstrlen, hbytes]
    omega

theorem inverts_iff : Inverts keys ↔
    (∀ key ∈ keys.getLast?, key.bytes ≠ []) ∧ (encode keys).strlen < 2 ^ 31 := by
  constructor
  · intro hinverts
    obtain ⟨elements, hrun, hkeys⟩ := hinverts
    have hlt : (encode keys).strlen < 2 ^ 31 := by
      by_contra hlong
      have hle := strlen_encode_le hrun hkeys
      have hshort := intLength_lt hlong
      have hscanned : (scanned (encode keys)).length ≤ (intLength (encode keys)).toNat :=
        List.length_take_le _ _
      omega
    refine ⟨?_, hlt⟩
    intro key hlast hempty
    obtain ⟨elements', hrun', hstrings⟩ := parseJsonPointer_encode hlt
    rw [hrun] at hrun'
    have hsame : (Segments.dropEmptyLast (keys.map CString.bytes)).map .ofBytes = keys := by
      rw [← hstrings, ← Option.some.inj hrun', hkeys]
    have hgetLast : (keys.map CString.bytes).getLast? = some [] := by
      rw [List.getLast?_map, hlast, ← hempty]
      rfl
    have hshorter := Segments.length_dropEmptyLast_lt hgetLast
    have hlength := congrArg List.length hsame
    rw [List.length_map] at hlength hshorter
    omega
  · intro hfits
    obtain ⟨hlast, hlt⟩ := hfits
    obtain ⟨elements, hrun, hstrings⟩ := parseJsonPointer_encode hlt
    refine ⟨elements, hrun, ?_⟩
    rw [hstrings, Segments.dropEmptyLast_eq_self, ofBytes_keys]
    intro part hpart
    rw [List.getLast?_map] at hpart
    obtain ⟨key, hkey, rfl⟩ := Option.map_eq_some_iff.mp hpart
    exact hlast key hkey

end Inverting

/-- Parsing inverts encoding for all lists of keys of which the last is not empty, if the pointer is
not too long for an `int`; and what is no pointer is rejected, if it is not too long either. -/
theorem parseJsonPointer_inverts_iff (keys : List CString) (s : CString) :
    (Inverts keys ↔
      (∀ key ∈ keys.getLast?, key.bytes ≠ []) ∧ (encode keys).strlen < 2 ^ 31) ∧
    (Rejects s ↔ (Malformed s → s.strlen < 2 ^ 31 ∨ WrongWithin s)) := by
  refine ⟨inverts_iff, ?_⟩
  apply imp_congr_right
  intro hwrong
  rw [parseJsonPointer_eq_none]
  exact ⟨.inr, fun h => h.elim (fun hlt => wrongWithin_of_lt hlt hwrong) id⟩

/-- An empty key at the end is lost. -/
theorem not_parseJsonPointer_inverts :
    ¬((∀ keys, Inverts keys) ∧ ∀ s, Rejects s) := by
  intro ⟨hinverts, _⟩
  obtain ⟨elements, hrun, hkeys⟩ := hinverts [.ofBytes []]
  have hempty : parseJsonPointer (encode [.ofBytes []]) = some [] := by decide
  rw [hempty] at hrun
  cases hrun
  cases hkeys

end JsonPointer
end ZoweCommon
