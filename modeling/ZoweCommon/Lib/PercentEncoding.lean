import ZoweCommon.Lib.Hexadecimal

/-! Texts of forms, with `+` for a blank and escapes of a percent sign and two digits. -/
namespace PercentEncoding

open Hexadecimal (Octet digit?)

def PERCENT : Octet := 0x25
def PLUS : Octet := 0x2B
def SPACE : Octet := 0x20

def plain (c : Octet) : Octet := if c = PLUS then SPACE else c

def escape? (high low : Octet) : Option Octet :=
  match digit? high, digit? low with
  | some a, some b => some (BitVec.ofNat 8 (16 * a + b))
  | _, _ => none

/-- A percent sign that starts no escape is there for itself. -/
def decode : List Octet → List Octet
  | c :: high :: low :: rest =>
    if c = PERCENT then
      match escape? high low with
      | some b => b :: decode rest
      | none => c :: decode (high :: low :: rest)
    else plain c :: decode (high :: low :: rest)
  | rest => rest.map plain

variable {c high low b : Octet} {rest : List Octet}

theorem plain_of_ne (h : c ≠ PLUS) : plain c = c := if_neg h

theorem decode_cons (h : c ≠ PERCENT) (rest : List Octet) :
    decode (c :: rest) = plain c :: decode rest := by
  rcases rest with _ | ⟨high, _ | ⟨low, rest⟩⟩
  · rfl
  · rfl
  · rw [decode, if_neg h]

theorem decode_escape (h : escape? high low = some b) (rest : List Octet) :
    decode (PERCENT :: high :: low :: rest) = b :: decode rest := by
  rw [decode, if_pos rfl, h]

theorem decode_percent (h : ∀ high low more, rest = high :: low :: more → escape? high low = none) :
    decode (PERCENT :: rest) = PERCENT :: decode rest := by
  rcases rest with _ | ⟨high, _ | ⟨low, rest⟩⟩
  · rfl
  · rfl
  · rw [decode, if_pos rfl, h high low rest rfl]

end PercentEncoding
