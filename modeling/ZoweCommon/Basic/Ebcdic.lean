import ZoweCommon.Basic.CString

/-! The characters of z/OS: code page 1047, in which the literals of the source are compiled. -/
namespace ZoweCommon
namespace Ebcdic

def ibm1047_to_iso88591 : List Byte :=
  [
   0x00, 0x01, 0x02, 0x03, 0x9C, 0x09, 0x86, 0x7F, 0x97, 0x8D, 0x8E, 0x0B, 0x0C, 0x0D, 0x0E, 0x0F,
   0x10, 0x11, 0x12, 0x13, 0x9D, 0x0A, 0x08, 0x87, 0x18, 0x19, 0x92, 0x8F, 0x1C, 0x1D, 0x1E, 0x1F,
   0x80, 0x81, 0x82, 0x83, 0x84, 0x85, 0x17, 0x1B, 0x88, 0x89, 0x8A, 0x8B, 0x8C, 0x05, 0x06, 0x07,
   0x90, 0x91, 0x16, 0x93, 0x94, 0x95, 0x96, 0x04, 0x98, 0x99, 0x9A, 0x9B, 0x14, 0x15, 0x9E, 0x1A,
   0x20, 0xA0, 0xE2, 0xE4, 0xE0, 0xE1, 0xE3, 0xE5, 0xE7, 0xF1, 0xA2, 0x2E, 0x3C, 0x28, 0x2B, 0x7C,
   0x26, 0xE9, 0xEA, 0xEB, 0xE8, 0xED, 0xEE, 0xEF, 0xEC, 0xDF, 0x21, 0x24, 0x2A, 0x29, 0x3B, 0x5E,
   0x2D, 0x2F, 0xC2, 0xC4, 0xC0, 0xC1, 0xC3, 0xC5, 0xC7, 0xD1, 0xA6, 0x2C, 0x25, 0x5F, 0x3E, 0x3F,
   0xF8, 0xC9, 0xCA, 0xCB, 0xC8, 0xCD, 0xCE, 0xCF, 0xCC, 0x60, 0x3A, 0x23, 0x40, 0x27, 0x3D, 0x22,
   0xD8, 0x61, 0x62, 0x63, 0x64, 0x65, 0x66, 0x67, 0x68, 0x69, 0xAB, 0xBB, 0xF0, 0xFD, 0xFE, 0xB1,
   0xB0, 0x6A, 0x6B, 0x6C, 0x6D, 0x6E, 0x6F, 0x70, 0x71, 0x72, 0xAA, 0xBA, 0xE6, 0xB8, 0xC6, 0xA4,
   0xB5, 0x7E, 0x73, 0x74, 0x75, 0x76, 0x77, 0x78, 0x79, 0x7A, 0xA1, 0xBF, 0xD0, 0x5B, 0xDE, 0xAE,
   0xAC, 0xA3, 0xA5, 0xB7, 0xA9, 0xA7, 0xB6, 0xBC, 0xBD, 0xBE, 0xDD, 0xA8, 0xAF, 0x5D, 0xB4, 0xD7,
   0x7B, 0x41, 0x42, 0x43, 0x44, 0x45, 0x46, 0x47, 0x48, 0x49, 0xAD, 0xF4, 0xF6, 0xF2, 0xF3, 0xF5,
   0x7D, 0x4A, 0x4B, 0x4C, 0x4D, 0x4E, 0x4F, 0x50, 0x51, 0x52, 0xB9, 0xFB, 0xFC, 0xF9, 0xFA, 0xFF,
   0x5C, 0xF7, 0x53, 0x54, 0x55, 0x56, 0x57, 0x58, 0x59, 0x5A, 0xB2, 0xD4, 0xD6, 0xD2, 0xD3, 0xD5,
   0x30, 0x31, 0x32, 0x33, 0x34, 0x35, 0x36, 0x37, 0x38, 0x39, 0xB3, 0xDB, 0xDC, 0xD9, 0xDA, 0x9F]

def iso88591_to_ibm1047 : List Byte :=
  [
   0x00, 0x01, 0x02, 0x03, 0x37, 0x2D, 0x2E, 0x2F, 0x16, 0x05, 0x15, 0x0B, 0x0C, 0x0D, 0x0E, 0x0F,
   0x10, 0x11, 0x12, 0x13, 0x3C, 0x3D, 0x32, 0x26, 0x18, 0x19, 0x3F, 0x27, 0x1C, 0x1D, 0x1E, 0x1F,
   0x40, 0x5A, 0x7F, 0x7B, 0x5B, 0x6C, 0x50, 0x7D, 0x4D, 0x5D, 0x5C, 0x4E, 0x6B, 0x60, 0x4B, 0x61,
   0xF0, 0xF1, 0xF2, 0xF3, 0xF4, 0xF5, 0xF6, 0xF7, 0xF8, 0xF9, 0x7A, 0x5E, 0x4C, 0x7E, 0x6E, 0x6F,
   0x7C, 0xC1, 0xC2, 0xC3, 0xC4, 0xC5, 0xC6, 0xC7, 0xC8, 0xC9, 0xD1, 0xD2, 0xD3, 0xD4, 0xD5, 0xD6,
   0xD7, 0xD8, 0xD9, 0xE2, 0xE3, 0xE4, 0xE5, 0xE6, 0xE7, 0xE8, 0xE9, 0xAD, 0xE0, 0xBD, 0x5F, 0x6D,
   0x79, 0x81, 0x82, 0x83, 0x84, 0x85, 0x86, 0x87, 0x88, 0x89, 0x91, 0x92, 0x93, 0x94, 0x95, 0x96,
   0x97, 0x98, 0x99, 0xA2, 0xA3, 0xA4, 0xA5, 0xA6, 0xA7, 0xA8, 0xA9, 0xC0, 0x4F, 0xD0, 0xA1, 0x07,
   0x20, 0x21, 0x22, 0x23, 0x24, 0x25, 0x06, 0x17, 0x28, 0x29, 0x2A, 0x2B, 0x2C, 0x09, 0x0A, 0x1B,
   0x30, 0x31, 0x1A, 0x33, 0x34, 0x35, 0x36, 0x08, 0x38, 0x39, 0x3A, 0x3B, 0x04, 0x14, 0x3E, 0xFF,
   0x41, 0xAA, 0x4A, 0xB1, 0x9F, 0xB2, 0x6A, 0xB5, 0xBB, 0xB4, 0x9A, 0x8A, 0xB0, 0xCA, 0xAF, 0xBC,
   0x90, 0x8F, 0xEA, 0xFA, 0xBE, 0xA0, 0xB6, 0xB3, 0x9D, 0xDA, 0x9B, 0x8B, 0xB7, 0xB8, 0xB9, 0xAB,
   0x64, 0x65, 0x62, 0x66, 0x63, 0x67, 0x9E, 0x68, 0x74, 0x71, 0x72, 0x73, 0x78, 0x75, 0x76, 0x77,
   0xAC, 0x69, 0xED, 0xEE, 0xEB, 0xEF, 0xEC, 0xBF, 0x80, 0xFD, 0xFE, 0xFB, 0xFC, 0xBA, 0xAE, 0x59,
   0x44, 0x45, 0x42, 0x46, 0x43, 0x47, 0x9C, 0x48, 0x54, 0x51, 0x52, 0x53, 0x58, 0x55, 0x56, 0x57,
   0x8C, 0x49, 0xCD, 0xCE, 0xCB, 0xCF, 0xCC, 0xE1, 0x70, 0xDD, 0xDE, 0xDB, 0xDC, 0x8D, 0x8E, 0xDF]

def translate (table : List Byte) (b : Byte) : Byte := table.getD b.toNat 0

def toIso88591 (b : Byte) : Byte := translate ibm1047_to_iso88591 b

def toIbm1047 (b : Byte) : Byte := translate iso88591_to_ibm1047 b

def toASCIIUTF8 (buffer : List Byte) : List Byte := buffer.map toIso88591

def literal (s : String) : List Byte := (CString.ascii s).map toIbm1047

section Packed

/-- A table as one number, in which a byte is found at once. -/
def packed (table : List Byte) : ℕ := table.foldr (fun b n => n * 256 + b.toNat) 0

theorem getD_packed (table : List Byte) (n : ℕ) :
    table.getD n 0 = BitVec.ofNat 8 (packed table >>> (8 * n)) := by
  induction table generalizing n with
  | nil => exact congrArg (BitVec.ofNat 8) (Nat.zero_shiftRight _).symm
  | cons c table ih =>
    have hc := c.isLt
    have hcons : packed (c :: table) = packed table * 256 + c.toNat := List.foldr_cons
    cases n with
    | zero =>
      apply BitVec.eq_of_toNat_eq
      rw [List.getD_cons_zero, hcons, BitVec.toNat_ofNat, Nat.mul_zero, Nat.shiftRight_zero]
      omega
    | succ n =>
      have hshift : packed (c :: table) >>> 8 = packed table := by
        rw [hcons, Nat.shiftRight_eq_div_pow]
        omega
      rw [List.getD_cons_succ, ih, Nat.mul_succ, Nat.add_comm, Nat.shiftRight_add, hshift]

theorem translate_packed (table : List Byte) (b : Byte) :
    translate table b = BitVec.ofNat 8 (packed table >>> (8 * b.toNat)) :=
  getD_packed table b.toNat

theorem toIso88591_packed (b : Byte) :
    toIso88591 b = BitVec.ofNat 8 (packed ibm1047_to_iso88591 >>> (8 * b.toNat)) :=
  translate_packed ibm1047_to_iso88591 b

theorem toIbm1047_packed (b : Byte) :
    toIbm1047 b = BitVec.ofNat 8 (packed iso88591_to_ibm1047 >>> (8 * b.toNat)) :=
  translate_packed iso88591_to_ibm1047 b

end Packed

@[simp] theorem toIso88591_toIbm1047 (b : Byte) : toIso88591 (toIbm1047 b) = b := by
  have hall : ∀ b : Byte, toIso88591 (toIbm1047 b) = b := by
    simp only [toIso88591_packed, toIbm1047_packed]
    decide +kernel
  exact hall b

@[simp] theorem toIbm1047_toIso88591 (b : Byte) : toIbm1047 (toIso88591 b) = b := by
  have hall : ∀ b : Byte, toIbm1047 (toIso88591 b) = b := by
    simp only [toIso88591_packed, toIbm1047_packed]
    decide +kernel
  exact hall b

theorem toIso88591_injective : Function.Injective toIso88591 := by
  intro a b h
  rw [← toIbm1047_toIso88591 a, h, toIbm1047_toIso88591]

theorem toIbm1047_injective : Function.Injective toIbm1047 := by
  intro a b h
  rw [← toIso88591_toIbm1047 a, h, toIso88591_toIbm1047]

theorem toIbm1047_ne_zero {c : Byte} (h : c ≠ 0) : toIbm1047 c ≠ 0 :=
  toIbm1047_injective.ne_iff' rfl |>.mpr h

@[simp] theorem length_toASCIIUTF8 (buffer : List Byte) :
    (toASCIIUTF8 buffer).length = buffer.length := List.length_map _

theorem toASCIIUTF8_append (a b : List Byte) :
    toASCIIUTF8 (a ++ b) = toASCIIUTF8 a ++ toASCIIUTF8 b := List.map_append

@[simp] theorem toASCIIUTF8_map_toIbm1047 (text : List Byte) :
    toASCIIUTF8 (text.map toIbm1047) = text := by
  unfold toASCIIUTF8
  rw [List.map_map]
  have hid : toIso88591 ∘ toIbm1047 = id := funext toIso88591_toIbm1047
  rw [hid, List.map_id]

end Ebcdic
end ZoweCommon
