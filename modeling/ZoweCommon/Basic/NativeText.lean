import ZoweCommon.Basic.CLibrary
import ZoweCommon.Basic.Ebcdic
import ZoweCommon.Basic.Exec

/-! From ASCII to the characters of z/OS, and their comparison. -/
namespace ZoweCommon
namespace Ebcdic

/-- The characters of ASCII, with blanks for those that are not printed, and the terminator. -/
def asciiTable : List Byte := (literal <|
  "                " ++
  "                " ++
  " !\"#$%&'()*+,-./" ++
  "0123456789:;<=>?" ++
  "@ABCDEFGHIJKLMNO" ++
  "PQRSTUVWXYZ[\\]^_" ++
  "`abcdefghijklmno" ++
  "pqrstuvwxyz\x7b|\x7d~ ") ++ [0]

/-- What the table has for a number. -/
def asciiChar (n : ℕ) : Byte :=
  if 0x20 ≤ n ∧ n < 0x7F then toIbm1047 (BitVec.ofNat 8 n) else if n < 0x80 then 0x40 else 0

theorem asciiChar_packed (n : ℕ) :
    asciiChar n = if 0x20 ≤ n ∧ n < 0x7F then
      BitVec.ofNat 8 (packed iso88591_to_ibm1047 >>> (8 * (BitVec.ofNat 8 n).toNat))
      else if n < 0x80 then 0x40 else 0 := by
  rw [asciiChar, toIbm1047_packed]

theorem asciiTable_eq : asciiTable = (List.range 0x81).map asciiChar := by
  rw [funext asciiChar_packed, asciiTable, literal, funext toIbm1047_packed]
  decide +kernel

theorem getElem?_asciiTable (n : ℕ) :
    asciiTable[n]? = if n ≤ 0x80 then some (asciiChar n) else none := by
  rw [asciiTable_eq, List.getElem?_map]
  by_cases h : n ≤ 0x80
  · rw [List.getElem?_range (by omega), if_pos h]
    rfl
  · rw [List.getElem?_eq_none (by rw [List.length_range]; omega), if_neg h]
    rfl

theorem getD_asciiTable (n : ℕ) : asciiTable.getD n 0 = asciiChar n := by
  rw [List.getD_eq_getElem?_getD, getElem?_asciiTable]
  by_cases h : n ≤ 0x80
  · rw [if_pos h]
    rfl
  · rw [if_neg h, asciiChar, if_neg (by omega), if_neg (by omega)]
    rfl

def unasciify (c : Byte) : Exec Byte :=
  if c = 0x24 then return 0x5B
  else if c = 0x25 then return 0x6C
  else
    match asciiTable[c.toNat]? with
    | some e => return e
    | none => throw .undefinedBehaviour

/-- The characters up to the first terminator are changed. -/
def destructivelyUnasciify : List Byte → Exec (List Byte)
  | [] => return []
  | c :: s =>
    if c = 0 then return c :: s
    else do
      let e ← unasciify c
      let es ← destructivelyUnasciify s
      return e :: es

def upchar (c : Byte) : Byte :=
  let low := c &&& 0x0F
  let high := c &&& 0xF0
  if high = 0x80 ∨ high = 0x90 then if 0x01 ≤ low ∧ low ≤ 0x09 then c ||| 0x40 else c
  else if high = 0xA0 then if 0x02 ≤ low ∧ low ≤ 0x09 then c ||| 0x40 else c
  else c

/-- Zero if the characters are the same. -/
def compareIgnoringCase : List Byte → List Byte → ℕ → Exec ℤ
  | _, _, 0 => return 0
  | c1 :: s1, c2 :: s2, len + 1 =>
    let diff : ℤ := (upchar c1).toNat - (upchar c2).toNat
    if diff ≠ 0 then return diff else compareIgnoringCase s1 s2 len
  | _, _, _ + 1 => throw .undefinedBehaviour

def atoi (s : CString) : Exec (BitVec 32) :=
  CLibrary.atoi (.ofBytes (toASCIIUTF8 s.bytes))

/-- `strtoull` to the base 10. A number that is too large is taken for the largest one, and the
others are negated if there is a minus. -/
def strtoull10 (s : CString) : BitVec 64 :=
  let text := (CString.ofBytes (toASCIIUTF8 s.bytes)).bytes.dropWhile fun b =>
    CLibrary.isspace b.toInt
  let (negative, text) := CLibrary.splitSign text
  let n := Decimal.value
    ((text.takeWhile fun b => CLibrary.isdigit b.toInt).map fun b => b.toNat - 0x30)
  if 2 ^ 64 ≤ n then BitVec.allOnes 64
  else BitVec.ofInt 64 (if negative then -n else n)

end Ebcdic
end ZoweCommon
