import ZoweCommon.Basic.NativeText
import ZoweCommon.Lib.PercentEncoding

/-! Parameters in the query of a request. -/
namespace ZoweCommon
namespace Http
namespace QueryParam

open Ebcdic

def ASCII_AMPERSAND : Byte := 0x26
def ASCII_EQUALS : Byte := 0x3D

def BUFFER_SIZE : ℕ := 1024

/-- What of the request is read: the query, or nothing. -/
structure HttpRequest where
  queryString : CString
  queryStringLen : queryString.strlen < 2 ^ 31

/-! Cleaning -/

inductive URLParmState
  | normal
  | percent
  | percentNumber (numChar : Byte)
  deriving DecidableEq

/-- The characters `0` to `9`, which follow each other, and so do `a` to `f` and `A` to `F`. -/
def native0 : Byte := 0xF0
def nativeSmallA : Byte := 0x81
def nativeA : Byte := 0xC1
def nativePercent : Byte := 0x6C
def nativePlus : Byte := 0x4E
def nativeBlank : Byte := 0x40

def asciiAt (highDigit lowDigit : ℕ) : Byte := asciiTable.getD (highDigit * 0x10 + lowDigit) 0

def cleanFrom : URLParmState → List Byte → List Byte
  | _, [] => []
  | .normal, c :: value =>
    if c = nativePercent then cleanFrom .percent value
    else if c = nativePlus then nativeBlank :: cleanFrom .normal value
    else c :: cleanFrom .normal value
  | .percent, c :: value =>
    if c = nativePercent then nativePercent :: cleanFrom .percent value
    else if native0 + 2 ≤ c ∧ c ≤ native0 + 7 then cleanFrom (.percentNumber c) value
    else nativePercent :: c :: cleanFrom .normal value
  | .percentNumber numChar, c :: value =>
    let highDigit := (numChar - native0).toNat
    if native0 ≤ c ∧ c ≤ native0 + 9 then
      asciiAt highDigit (c - native0).toNat :: cleanFrom .normal value
    else if nativeSmallA ≤ c ∧ c ≤ nativeSmallA + 5 then
      asciiAt highDigit (10 + (c - nativeSmallA).toNat) :: cleanFrom .normal value
    else if nativeA ≤ c ∧ c ≤ nativeA + 5 then
      asciiAt highDigit (10 + (c - nativeA).toNat) :: cleanFrom .normal value
    else if c = nativePercent then nativePercent :: numChar :: cleanFrom .percent value
    else nativePercent :: numChar :: c :: cleanFrom .normal value

theorem cleanFrom_percent (value : List Byte) :
    cleanFrom .normal (nativePercent :: value) = cleanFrom .percent value := by
  rw [cleanFrom, if_pos rfl]

def cleanURLParamValue (value : CString) : CString := .ofBytes (cleanFrom .normal value.bytes)

/-! The search -/

inductive QPState
  | initial
  | paramName
  | ampersand
  | equal
  | paramValue
  deriving DecidableEq

/-- One more character in a buffer. -/
def push (buffer : List Byte) (c : Byte) : Exec (List Byte) :=
  if buffer.length < BUFFER_SIZE then return buffer ++ [c] else throw .undefinedBehaviour

def terminate (buffer : List Byte) : Exec CString := do
  if BUFFER_SIZE ≤ buffer.length then throw .undefinedBehaviour
  return .ofBytes (← destructivelyUnasciify buffer)

def getValue (paramValueBuffer : List Byte) : Exec (Option CString) := do
  return some (cleanURLParamValue (← terminate paramValueBuffer))

/-- The characters from some place on, after what is in the buffers. -/
def scan (paramName : CString) : QPState → List Byte → List Byte → Bool → List Byte →
    Exec (Option CString)
  | _, _, _, _, [] => return none
  | .initial, paramNameBuffer, paramValueBuffer, matched, c :: rest =>
    if c = ASCII_EQUALS ∨ c = ASCII_AMPERSAND then return none
    else do
      scan paramName .paramName (← push paramNameBuffer c) paramValueBuffer matched rest
  | .paramName, paramNameBuffer, paramValueBuffer, matched, c :: rest =>
    if c = ASCII_EQUALS then do
      let ebcdicParamNameBuffer ← terminate paramNameBuffer
      scan paramName .equal paramNameBuffer paramValueBuffer
        (matched || paramName = ebcdicParamNameBuffer) rest
    else if c = ASCII_AMPERSAND then return none
    else do
      scan paramName .paramName (← push paramNameBuffer c) paramValueBuffer matched rest
  | .ampersand, _, paramValueBuffer, matched, c :: rest =>
    if c = ASCII_AMPERSAND ∨ c = ASCII_EQUALS then return none
    else scan paramName .paramName [c] paramValueBuffer matched rest
  | .equal, paramNameBuffer, _, matched, c :: rest =>
    if c = ASCII_AMPERSAND ∨ c = ASCII_EQUALS then return none
    else if rest = [] then
      if matched then getValue [c] else return none
    else scan paramName .paramValue paramNameBuffer [c] matched rest
  | .paramValue, paramNameBuffer, paramValueBuffer, matched, c :: rest =>
    if c = ASCII_AMPERSAND ∨ rest = [] then do
      let paramValueBuffer ←
        if c ≠ ASCII_AMPERSAND then push paramValueBuffer c else pure paramValueBuffer
      if matched then getValue paramValueBuffer
      else if c = ASCII_AMPERSAND then
        scan paramName .ampersand paramNameBuffer paramValueBuffer matched rest
      else scan paramName .paramValue paramNameBuffer paramValueBuffer matched rest
    else if c = ASCII_EQUALS then return none
    else do
      scan paramName .paramValue paramNameBuffer (← push paramValueBuffer c) matched rest

def getQueryParam (request : HttpRequest) (paramName : CString) : Exec (Option CString) :=
  scan paramName .initial [] [] false request.queryString.bytes

end QueryParam
end Http
end ZoweCommon
