import Mathlib.Data.List.OfFn
import ZoweCommon.WebSocket.ReadMachine

/-! Frames on the wire, and how far the machine has come with one. -/
namespace ZoweCommon
namespace WebSocket

/-! Numbers in the byte order of the network -/

theorem bigEndian_succ (width n : ℕ) :
    bigEndian (width + 1) n = bigEndian width (n / 256) ++ [BitVec.ofNat 8 n] := by
  unfold bigEndian
  rw [List.range_succ, List.map_append]
  congr 1
  · apply List.map_congr_left
    intro i hi
    have hlt : i < width := List.mem_range.mp hi
    have hpow : 256 ^ (width + 1 - 1 - i) = 256 * 256 ^ (width - 1 - i) := by
      rw [← Nat.pow_succ']
      congr 1
      omega
    rw [hpow, Nat.div_div_eq_div_mul]
  · simp

@[simp] theorem bigEndian_length (width n : ℕ) : (bigEndian width n).length = width := by
  simp [bigEndian]

theorem ofBigEndian_bigEndian (width n : ℕ) : ofBigEndian (bigEndian width n) = n % 256 ^ width := by
  induction width generalizing n with
  | zero => simp [bigEndian, ofBigEndian, Nat.mod_one]
  | succ width ih =>
    have hfold : ofBigEndian (bigEndian width (n / 256) ++ [BitVec.ofNat 8 n]) =
        ofBigEndian (bigEndian width (n / 256)) * 256 + n % 256 := by
      simp [ofBigEndian]
    rw [bigEndian_succ, hfold, ih, Nat.pow_succ', Nat.mod_mul]
    omega

/-- A frame as a peer sends it. -/
structure Frame where
  opcodeAndFlags : Byte
  mask : Option (Fin 4 → Byte)
  payload : List Byte

namespace Frame

def length7 (f : Frame) : ℕ :=
  if 65536 ≤ f.payload.length then 127 else if 126 ≤ f.payload.length then 126 else f.payload.length

def extended (f : Frame) : List Byte :=
  if 65536 ≤ f.payload.length then bigEndian 8 f.payload.length
  else if 126 ≤ f.payload.length then bigEndian 2 f.payload.length
  else []

def maskBytes (f : Frame) : List Byte :=
  match f.mask with
  | some mask => List.ofFn mask
  | none => []

def lengthByte (f : Frame) : Byte :=
  (if f.mask.isSome then 0x80 else 0) ||| BitVec.ofNat 8 f.length7

def header (f : Frame) : List Byte :=
  f.opcodeAndFlags :: f.lengthByte :: (f.extended ++ f.maskBytes)

/-- What the mask makes of the payload from a place on; it is undone the same way. -/
def masked (mask : Option (Fin 4 → Byte)) : ℕ → List Byte → List Byte
  | _, [] => []
  | i, b :: bytes =>
    (match mask with
      | some mask => b ^^^ mask (Fin.ofNat 4 i)
      | none => b) :: masked mask (i + 1) bytes

def body (f : Frame) : List Byte := masked f.mask 0 f.payload

def wire (f : Frame) : List Byte := f.header ++ f.body

def fin (f : Frame) : Bool := f.opcodeAndFlags &&& 0x80 ≠ 0

def closeBit (f : Frame) : Bool := f.opcodeAndFlags &&& 0x08 ≠ 0

def isClose (f : Frame) : Bool := f.opcodeAndFlags &&& 0x0F = OPCODE_CONNECTION_CLOSE

@[simp] theorem masked_length (mask : Option (Fin 4 → Byte)) (i : ℕ) (bytes : List Byte) :
    (masked mask i bytes).length = bytes.length := by
  induction bytes generalizing i with
  | nil => rfl
  | cons b bytes ih => simp [masked, ih]

theorem masked_none (i : ℕ) (bytes : List Byte) : masked none i bytes = bytes := by
  induction bytes generalizing i with
  | nil => rfl
  | cons b bytes ih => simp [masked, ih]

theorem masked_drop (mask : Option (Fin 4 → Byte)) (i n : ℕ) (bytes : List Byte) :
    (masked mask i bytes).drop n = masked mask (i + n) (bytes.drop n) := by
  induction bytes generalizing i n with
  | nil => simp [masked]
  | cons b bytes ih =>
    cases n with
    | zero => rfl
    | succ n =>
      rw [List.drop_succ_cons, ← Nat.add_assoc, Nat.add_right_comm, ← ih]
      rfl

theorem masked_take (mask : Option (Fin 4 → Byte)) (i n : ℕ) (bytes : List Byte) :
    (masked mask i bytes).take n = masked mask i (bytes.take n) := by
  induction bytes generalizing i n with
  | nil => simp [masked]
  | cons b bytes ih =>
    cases n with
    | zero => rfl
    | succ n =>
      simp only [masked, List.take_succ_cons, ih]

@[simp] theorem body_length (f : Frame) : f.body.length = f.payload.length := by simp [body]

theorem two_le_header (f : Frame) : 2 ≤ f.header.length := by simp [header]

@[simp] theorem wire_length (f : Frame) : f.wire.length = f.header.length + f.payload.length := by
  simp [wire]

theorem maskBytes_length (f : Frame) : f.maskBytes.length = if f.mask.isSome then 4 else 0 := by
  unfold maskBytes
  cases f.mask <;> simp

theorem length7_le (f : Frame) : f.length7 ≤ 127 := by
  unfold length7
  split
  · exact le_rfl
  · split
    · decide
    · omega

theorem lengthByte_low (f : Frame) : f.lengthByte &&& 0x7F = BitVec.ofNat 8 f.length7 := by
  have hall : ∀ n ≤ 127, ∀ masked : Bool,
      ((if masked then 0x80 else 0) ||| BitVec.ofNat 8 n) &&& (0x7F : Byte) = BitVec.ofNat 8 n := by
    decide
  exact hall f.length7 f.length7_le f.mask.isSome

theorem lengthByte_high (f : Frame) : decide (f.lengthByte &&& 0x80 ≠ 0) = f.mask.isSome := by
  have hall : ∀ n ≤ 127, ∀ masked : Bool,
      decide (((if masked then 0x80 else 0) ||| BitVec.ofNat 8 n) &&& (0x80 : Byte) ≠ 0) = masked := by
    decide
  exact hall f.length7 f.length7_le f.mask.isSome

theorem extended_length (f : Frame) :
    f.extended.length =
      if f.length7 = 127 then 8 else if f.length7 = 126 then 2 else 0 := by
  unfold extended length7
  split
  · simp
  · split
    · simp
    · rw [if_neg (by omega), if_neg (by omega), List.length_nil]

theorem header_length (f : Frame) :
    f.header.length = 2 + (if f.mask.isSome then 4 else 0) + f.extended.length := by
  simp only [header, List.length_cons, List.length_append, maskBytes_length]
  omega

end Frame

/-! Reading a part of the data -/

structure Left (data : List Byte) (offset : ℕ) (left : List Byte) : Prop where
  inside : offset ≤ data.length
  drop : data.drop offset = left

namespace Left

variable {data left : List Byte} {offset : ℕ}

theorem start (data : List Byte) : Left data 0 data := ⟨Nat.zero_le _, List.drop_zero⟩

theorem length (h : Left data offset left) : left.length = data.length - offset := by
  rw [← h.drop, List.length_drop]

theorem available (h : Left data offset left) :
    ((data.length : ℤ) - offset).toNat = left.length := by
  rw [h.length]
  omega

theorem advance (h : Left data offset left) {n : ℕ} (hn : n ≤ left.length) :
    Left data (offset + n) (left.drop n) := by
  have hlen := h.length
  have hinside := h.inside
  constructor
  · omega
  · rw [← h.drop, List.drop_drop]

theorem dataAt_eq (h : Left data offset left) {n : ℕ} (hn : n ≤ left.length) :
    dataAt data offset n = .ok (left.take n) := by
  have hlen := h.length
  have hinside := h.inside
  unfold dataAt
  rw [if_pos (by omega), Int.toNat_natCast, h.drop]
  rfl

end Left

/-- The first bytes of what was sent to close the session. -/
def WSSession.replies (s : WSSession) : List Byte := s.closeHandshakes.filterMap List.head?

theorem addNewWSFrame_head (opcodeAndFlags : Byte) {payload : List Byte}
    (h : payload.length ≤ 2 ^ 30) :
    ∃ buffer, addNewWSFrame opcodeAndFlags payload = .ok buffer ∧
      buffer.head? = some opcodeAndFlags := by
  unfold addNewWSFrame
  rw [if_pos]
  · exact ⟨_, rfl, rfl⟩
  · unfold INT_MAX
    split_ifs <;> omega

/-! How far the machine has come -/

/-- What of the machine there is between two frames. -/
structure Idle where
  maskBytes : List Byte
  currentMessage : Option WSMessage
  messageQueue : List WSMessage

def Idle.machine (i : Idle) : WSReadMachine where
  maskBytes := i.maskBytes
  currentMessage := i.currentMessage
  messageQueue := i.messageQueue

namespace Frame

def inHeader (f : Frame) (i : Idle) (k : ℕ) : WSReadMachine :=
  if k < 2 then { i.machine with headerBuffer := f.header.take k }
  else
    { i.machine with
      headerBuffer := f.header.take k
      flagAndOpcodeByte := f.opcodeAndFlags
      fin := f.fin
      isMasked := f.mask.isSome
      payloadLengthLength := f.extended.length
      headerNeed := f.header.length }

def inPayload (f : Frame) (i : Idle) (n : ℕ) (payloadStream : BigBuffer) : WSReadMachine where
  headerBuffer := f.header
  headerNeed := f.header.length
  flagAndOpcodeByte := f.opcodeAndFlags
  maskBytes := if f.mask.isSome then f.maskBytes else i.maskBytes
  payloadLengthLength := f.extended.length
  fin := f.fin
  headerRead := true
  isMasked := f.mask.isSome
  payloadLength := f.payload.length
  payloadFill := n
  maskModulus := if f.mask.isSome then n % 4 else 0
  payloadStream := payloadStream
  currentMessage := i.currentMessage
  messageQueue := i.messageQueue

def afterFirstBytes (f : Frame) (i : Idle) : WSReadMachine :=
  if f.header.length = 2 then f.inPayload i 0 (makeBigBuffer 256) else f.inHeader i 2

variable {f : Frame} {i : Idle}

theorem header_take_append {k n : ℕ} (h : k + n ≤ f.header.length) :
    f.header.take k ++ (f.wire.drop k).take n = f.header.take (k + n) := by
  have hwire : (f.wire.drop k).take n = (f.header.drop k).take n := by
    unfold wire
    rw [List.drop_append_of_le_length (by omega), List.take_append_of_le_length (by simp; omega)]
  rw [hwire, ← List.take_add]

theorem wire_drop_header (n : ℕ) : f.wire.drop (f.header.length + n) = f.body.drop n := by
  unfold wire
  rw [← List.drop_drop, List.drop_left]

theorem wire_payload (n j : ℕ) :
    (f.wire.drop (f.header.length + n)).take j = masked f.mask n ((f.payload.drop n).take j) := by
  rw [wire_drop_header, body, masked_drop, masked_take, Nat.zero_add]

theorem length7_eq (h : f.extended.length = 0) : f.length7 = f.payload.length := by
  have hext := f.extended_length
  have hnot : f.length7 ≠ 127 ∧ f.length7 ≠ 126 := by
    constructor
    · intro h127
      rw [if_pos h127] at hext
      omega
    · intro h126
      rw [if_neg (by omega), if_pos h126] at hext
      omega
  unfold length7 at hnot ⊢
  split
  · simp_all
  · split
    · simp_all
    · rfl

theorem low_of_short (h : f.extended.length = 0) :
    (f.lengthByte &&& 0x7F).toNat = f.payload.length := by
  have h7 := length7_eq h
  have hle := f.length7_le
  rw [lengthByte_low, BitVec.toNat_ofNat, h7]
  omega

theorem lengthLength_eq (f : Frame) :
    (if f.lengthByte &&& 0x7F = 127 then 8 else if f.lengthByte &&& 0x7F = 126 then 2 else 0) =
      f.extended.length := by
  have hle := f.length7_le
  have h127 : BitVec.ofNat 8 f.length7 = 127 ↔ f.length7 = 127 := by
    rw [← BitVec.toNat_inj]
    simp
    omega
  have h126 : BitVec.ofNat 8 f.length7 = 126 ↔ f.length7 = 126 := by
    rw [← BitVec.toNat_inj]
    simp
    omega
  rw [extended_length, lengthByte_low]
  simp only [h127, h126]

theorem readFirstBytes_eq (f : Frame) (i : Idle) :
    ({ i.machine with headerBuffer := f.header.take 2 } : WSReadMachine).readFirstBytes =
      f.afterFirstBytes i := by
  have htake : f.header.take 2 = [f.opcodeAndFlags, f.lengthByte] := rfl
  unfold WSReadMachine.readFirstBytes
  simp only [htake, Idle.machine, List.getD_cons_zero, List.getD_cons_succ, lengthLength_eq,
    lengthByte_high, ← header_length]
  unfold afterFirstBytes
  by_cases htwo : f.header.length = 2
  · have hlen := f.header_length
    have hext : f.extended.length = 0 := by omega
    have hmask : f.mask.isSome = false := by
      cases hm : f.mask.isSome with
      | false => rfl
      | true =>
        rw [hm, if_pos rfl] at hlen
        omega
    have hpay := low_of_short hext
    have hheader : [f.opcodeAndFlags, f.lengthByte] = f.header := by
      rw [← htake, List.take_of_length_le (by omega)]
    simp only [htwo, if_true, hheader, hpay]
    simp [inPayload, hmask, hext, htwo, fin]
  · simp only [htwo, if_false]
    simp [inHeader, Idle.machine, fin, htake]

/-- The three ways a length is written are read back. -/
theorem payloadLength_eq (h : f.payload.length < 2 ^ 63) (z : ℤ) :
    (if f.extended.length = 0 then ((f.lengthByte &&& 0x7F).toNat : ℤ)
      else if f.extended.length = 2 then (ofBigEndian (f.extended.take 2) : ℤ)
      else if f.extended.length = 8 then (BitVec.ofNat 64 (ofBigEndian (f.extended.take 8))).toInt
      else z) = f.payload.length := by
  by_cases h8 : 65536 ≤ f.payload.length
  · have hext : f.extended = bigEndian 8 f.payload.length := if_pos h8
    have hmod : f.payload.length % 256 ^ 8 = f.payload.length := Nat.mod_eq_of_lt (by omega)
    have htake : (bigEndian 8 f.payload.length).take 8 = bigEndian 8 f.payload.length :=
      List.take_of_length_le (by simp)
    have hint : (BitVec.ofNat 64 f.payload.length).toInt = f.payload.length := by
      rw [BitVec.toInt_eq_toNat_of_lt (by simp; omega), BitVec.toNat_ofNat]
      exact_mod_cast Nat.mod_eq_of_lt (by omega)
    simp only [hext, bigEndian_length, htake, ofBigEndian_bigEndian, hmod, hint]
    simp
  · by_cases h2 : 126 ≤ f.payload.length
    · have hext : f.extended = bigEndian 2 f.payload.length := by
        unfold extended
        rw [if_neg h8, if_pos h2]
      have hmod : f.payload.length % 256 ^ 2 = f.payload.length := Nat.mod_eq_of_lt (by omega)
      have htake : (bigEndian 2 f.payload.length).take 2 = bigEndian 2 f.payload.length :=
        List.take_of_length_le (by simp)
      simp only [hext, bigEndian_length, htake, ofBigEndian_bigEndian, hmod]
      simp
    · have hext : f.extended.length = 0 := by
        unfold extended
        rw [if_neg h8, if_neg h2, List.length_nil]
      rw [if_pos hext, low_of_short hext]

theorem readLengthAndMask_eq (h : f.payload.length < 2 ^ 63) {k : ℕ} (hk : 2 ≤ k) :
    ({ f.inHeader i k with headerBuffer := f.header } : WSReadMachine).readLengthAndMask =
      f.inPayload i 0 (makeBigBuffer 256) := by
  have hlength : (f.header.drop 2).take f.extended.length = f.extended := by
    simp [header]
  have hmask : f.mask.isSome = true →
      (f.header.drop (2 + f.extended.length)).take 4 = f.maskBytes := by
    intro hm
    have hlen := f.maskBytes_length
    rw [hm, if_pos rfl] at hlen
    have hdrop : f.header.drop (2 + f.extended.length) = f.maskBytes := by
      rw [← List.drop_drop]
      simp [header]
    rw [hdrop, List.take_of_length_le (by omega)]
  have hfirst : f.header.getD 1 0 = f.lengthByte := rfl
  have h2 : f.extended.length = 2 → (f.header.drop 2).take 2 = f.extended.take 2 := by
    intro hext
    have hall := hlength
    rw [hext] at hall
    rw [hall, List.take_of_length_le hext.le]
  have h8 : f.extended.length = 8 → (f.header.drop 2).take 8 = f.extended.take 8 := by
    intro hext
    have hall := hlength
    rw [hext] at hall
    rw [hall, List.take_of_length_le hext.le]
  have hpay := payloadLength_eq h 0
  have hlen : (if f.extended.length = 0 then ((f.lengthByte &&& 0x7F).toNat : ℤ)
      else if f.extended.length = 2 then (ofBigEndian ((f.header.drop 2).take 2) : ℤ)
      else if f.extended.length = 8 then
        (BitVec.ofNat 64 (ofBigEndian ((f.header.drop 2).take 8))).toInt
      else 0) = f.payload.length := by
    rw [← hpay]
    split_ifs with _ hext2 hext8
    · rfl
    · rw [h2 hext2]
    · rw [h8 hext8]
    · rfl
  have hk' : ¬ k < 2 := by omega
  unfold WSReadMachine.readLengthAndMask inHeader inPayload
  simp only [hk', if_false, Idle.machine, hfirst, hlen]
  cases hm : f.mask.isSome with
  | false => simp
  | true => simp [hmask hm]

end Frame

/-! The phases of the loop -/

namespace Advance

variable {data left : List Byte} {o : ℕ}

theorem fillHeader_eq (h : Left data o left) (m : WSReadMachine) (s : WSSession)
    (shouldClose ready : Bool) (need : ℕ) :
    fillHeader ⟨m, s, o, shouldClose, ready⟩ data need =
      .ok ⟨{ m with headerBuffer := m.headerBuffer ++ left.take (need - m.headerFill) }, s,
        (o + min (need - m.headerFill) left.length : ℕ), shouldClose, ready⟩ := by
  unfold fillHeader
  have hdata := h.dataAt_eq (Nat.min_le_right (need - m.headerFill) left.length)
  simp only [h.available, hdata, Exec.ok_bind, Exec.pure_eq_ok]
  have htake : left.take (min (need - m.headerFill) left.length) =
      left.take (need - m.headerFill) := by
    rw [← List.take_take, List.take_length]
  rw [htake, List.length_take]
  push_cast
  rfl

end Advance

namespace Frame

section Phases

variable {f : Frame} {i : Idle} {data left rest : List Byte} {o k : ℕ}

theorem take_of_starts (hleft : left <+: f.wire.drop k ++ rest) {n : ℕ} (hn : n ≤ left.length)
    (hk : k + n ≤ f.wire.length) : left.take n = (f.wire.drop k).take n := by
  obtain ⟨later, hlater⟩ := hleft
  have happ : (left ++ later).take n = left.take n := List.take_append_of_le_length hn
  rw [← happ, hlater, List.take_append_of_le_length (by simp at hk ⊢; omega)]

theorem drop_prefix (hleft : left <+: f.wire.drop k ++ rest) {n : ℕ} (hn : n - k ≤ left.length)
    (hk : k ≤ n) (hwire : n ≤ f.wire.length) : left.drop (n - k) <+: f.wire.drop n ++ rest := by
  obtain ⟨later, hlater⟩ := hleft
  refine ⟨later, ?_⟩
  have hdrop : (left ++ later).drop (n - k) = left.drop (n - k) ++ later :=
    List.drop_append_of_le_length hn
  rw [← hdrop, hlater, List.drop_append_of_le_length (by rw [List.length_drop]; omega),
    List.drop_drop, Nat.add_sub_cancel' hk]

/-- So many more bytes of the header. -/
theorem header_append (hleft : left <+: f.wire.drop k ++ rest) {n : ℕ} (hn : n ≤ left.length)
    (hk : k + n ≤ f.header.length) : f.header.take k ++ left.take n = f.header.take (k + n) := by
  rw [take_of_starts hleft hn (by rw [wire_length]; omega), header_take_append hk]

theorem inHeader_headerBuffer (f : Frame) (i : Idle) (k : ℕ) :
    (f.inHeader i k).headerBuffer = f.header.take k := by
  unfold inHeader
  split <;> rfl

theorem inHeader_headerFill (hk : k ≤ f.header.length) : (f.inHeader i k).headerFill = k := by
  unfold WSReadMachine.headerFill
  rw [inHeader_headerBuffer, List.length_take, Nat.min_eq_left hk]

theorem inHeader_with_low {n : ℕ} (hk : k < 2) (hn : n < 2) :
    { f.inHeader i k with headerBuffer := f.header.take n } = f.inHeader i n := by
  unfold inHeader
  rw [if_pos hk, if_pos hn]

theorem inHeader_with_high {n : ℕ} (hk : 2 ≤ k) (hn : 2 ≤ n) :
    { f.inHeader i k with headerBuffer := f.header.take n } = f.inHeader i n := by
  unfold inHeader
  rw [if_neg (by omega), if_neg (by omega)]

variable (s : WSSession) (shouldClose ready : Bool)

theorem firstBytes_short (h : Left data o left) (hleft : left <+: f.wire.drop k ++ rest)
    (hk : k + left.length < 2) :
    Advance.firstBytes ⟨f.inHeader i k, s, o, shouldClose, ready⟩ data =
      .ok (⟨f.inHeader i (k + left.length), s, (o + left.length : ℕ), shouldClose, ready⟩,
        false) := by
  have htwo := f.two_le_header
  have hfill : (f.inHeader i k).headerFill = k := inHeader_headerFill (by omega)
  have happ := header_append hleft le_rfl (by omega)
  rw [List.take_length] at happ
  unfold Advance.firstBytes
  simp only [hfill, Advance.fillHeader_eq h, Exec.ok_bind, Exec.pure_eq_ok]
  rw [if_pos (by omega)]
  have hle : left.length ≤ 2 - k := by omega
  simp only [inHeader_headerBuffer, List.take_of_length_le hle, happ, Nat.min_eq_right hle,
    inHeader_with_low (show k < 2 by omega) hk]
  rw [inHeader_headerFill (by omega), if_pos hk]

theorem firstBytes_full (h : Left data o left) (hleft : left <+: f.wire.drop k ++ rest)
    (hk : k < 2) (hfull : 2 ≤ k + left.length) :
    Advance.firstBytes ⟨f.inHeader i k, s, o, shouldClose, ready⟩ data =
      .ok (⟨f.afterFirstBytes i, s, (o + (2 - k) : ℕ), f.closeBit, ready⟩, true) := by
  have htwo := f.two_le_header
  have hfill : (f.inHeader i k).headerFill = k := inHeader_headerFill (by omega)
  have happ := header_append hleft (show 2 - k ≤ left.length by omega) (by omega)
  rw [show k + (2 - k) = 2 by omega] at happ
  have hlow : f.inHeader i k = { i.machine with headerBuffer := f.header.take k } := if_pos hk
  have hflag : (f.afterFirstBytes i).flagAndOpcodeByte = f.opcodeAndFlags := by
    unfold afterFirstBytes inHeader inPayload
    split <;> rfl
  unfold Advance.firstBytes
  simp only [hfill, Advance.fillHeader_eq h, Exec.ok_bind, Exec.pure_eq_ok]
  rw [if_pos hk]
  have hmin : min (2 - k) left.length = 2 - k := by omega
  have hread := readFirstBytes_eq f i
  have hlen : ¬ (f.header.take 2).length < 2 := by simp [htwo]
  simp only [inHeader_headerBuffer, happ, hmin, WSReadMachine.headerFill, hlen, if_false]
  rw [hlow, hread, hflag]
  rfl

theorem firstBytes_skip {a : Advance} (h : 2 ≤ a.m.headerFill) :
    a.firstBytes data = .ok (a, true) := by
  unfold Advance.firstBytes
  rw [if_neg (by omega)]
  rfl

theorem inHeader_headerNeed (hk : 2 ≤ k) : (f.inHeader i k).headerNeed = f.header.length := by
  unfold inHeader
  rw [if_neg (by omega)]

theorem restOfHeader_short (h : Left data o left) (hleft : left <+: f.wire.drop k ++ rest)
    (hk : 2 ≤ k) (hshort : k + left.length < f.header.length) :
    Advance.restOfHeader ⟨f.inHeader i k, s, o, shouldClose, ready⟩ data =
      .ok (⟨f.inHeader i (k + left.length), s, (o + left.length : ℕ), shouldClose, ready⟩,
        false) := by
  have hfill : (f.inHeader i k).headerFill = k := inHeader_headerFill (by omega)
  have hafter : (f.inHeader i (k + left.length)).headerFill = k + left.length :=
    inHeader_headerFill (by omega)
  have happ := header_append hleft le_rfl (by omega)
  rw [List.take_length] at happ
  have hle : left.length ≤ f.header.length - k := by omega
  have hstep : Advance.fillHeader ⟨f.inHeader i k, s, o, shouldClose, ready⟩ data f.header.length =
      .ok ⟨f.inHeader i (k + left.length), s, (o + left.length : ℕ), shouldClose, ready⟩ := by
    rw [Advance.fillHeader_eq h, hfill, inHeader_headerBuffer, List.take_of_length_le hle, happ,
      Nat.min_eq_right hle, inHeader_with_high hk (by omega)]
  unfold Advance.restOfHeader
  simp only [hfill, inHeader_headerNeed hk]
  rw [if_pos (by omega), hstep]
  simp only [Exec.ok_bind, Exec.pure_eq_ok, hafter,
    inHeader_headerNeed (show 2 ≤ k + left.length by omega), hshort, if_true]

theorem restOfHeader_full (hpay : f.payload.length < 2 ^ 63) (h : Left data o left)
    (hleft : left <+: f.wire.drop k ++ rest) (hk : 2 ≤ k) (hlt : k < f.header.length)
    (hfull : f.header.length ≤ k + left.length) :
    Advance.restOfHeader ⟨f.inHeader i k, s, o, shouldClose, ready⟩ data =
      .ok (⟨f.inPayload i 0 (makeBigBuffer 256), s, (o + (f.header.length - k) : ℕ), shouldClose,
        ready⟩, true) := by
  have hfill : (f.inHeader i k).headerFill = k := inHeader_headerFill (by omega)
  have happ := header_append hleft (show f.header.length - k ≤ left.length by omega) (by omega)
  rw [show k + (f.header.length - k) = f.header.length by omega, List.take_length] at happ
  have hmin : min (f.header.length - k) left.length = f.header.length - k := by omega
  have hstep : Advance.fillHeader ⟨f.inHeader i k, s, o, shouldClose, ready⟩ data f.header.length =
      .ok ⟨{ f.inHeader i k with headerBuffer := f.header }, s,
        (o + (f.header.length - k) : ℕ), shouldClose, ready⟩ := by
    rw [Advance.fillHeader_eq h, hfill, inHeader_headerBuffer, happ, hmin]
  have hread := readLengthAndMask_eq (i := i) hpay hk
  have hboth : ({ f.inHeader i k with headerBuffer := f.header } : WSReadMachine).headerFill =
      ({ f.inHeader i k with headerBuffer := f.header } : WSReadMachine).headerNeed :=
    (inHeader_headerNeed hk).symm
  generalize ({ f.inHeader i k with headerBuffer := f.header } : WSReadMachine) = m at *
  unfold Advance.restOfHeader
  simp only [hfill, inHeader_headerNeed hk]
  rw [if_pos hlt, hstep]
  simp only [Exec.ok_bind, hboth, lt_irrefl, if_false, hread, Exec.pure_eq_ok]

theorem restOfHeader_skip {a : Advance} (h : a.m.headerNeed ≤ a.m.headerFill) :
    a.restOfHeader data = .ok (a, true) := by
  unfold Advance.restOfHeader
  rw [if_neg (by omega)]
  rfl

/-- The loop with too few bytes for a header. -/
theorem loop_header_short (h : Left data o left) (hleft : left <+: f.wire.drop k ++ rest)
    (hne : left ≠ []) (hshort : k + left.length < f.header.length) (fuel : ℕ) :
    advanceLoop data (fuel + 1) ⟨f.inHeader i k, s, o, shouldClose, ready⟩ =
      .ok (false, f.inHeader i (k + left.length), s) := by
  have hpos : 0 < left.length := List.length_pos_iff.mpr hne
  have hlen := h.length
  have hin : ((o : ℤ) < data.length) := by omega
  rw [advanceLoop, if_pos hin]
  by_cases hk : k < 2
  · by_cases htwo : k + left.length < 2
    · rw [firstBytes_short s shouldClose ready h hleft htwo]
      rfl
    · rw [firstBytes_full s shouldClose ready h hleft hk (by omega)]
      have hafter : f.afterFirstBytes i = f.inHeader i 2 := if_neg (by omega)
      have hleft' : left.drop (2 - k) <+: f.wire.drop 2 ++ rest := drop_prefix hleft (by omega) hk.le (by rw [wire_length]; omega)
      have hshort' := restOfHeader_short (i := i) s f.closeBit ready (h.advance (show 2 - k ≤ left.length by omega))
        hleft' le_rfl (by simp; omega)
      simp only [Exec.ok_bind, hafter, hshort']
      have hsum : 2 + (left.drop (2 - k)).length = k + left.length := by simp; omega
      rw [hsum]
      rfl
  · rw [firstBytes_skip (by rw [inHeader_headerFill (by omega)]; omega)]
    simp only [Exec.ok_bind, restOfHeader_short s shouldClose ready h hleft (by omega) hshort]
    rfl

theorem loop_header_full (hpay : f.payload.length < 2 ^ 63) (h : Left data o left)
    (hleft : left <+: f.wire.drop k ++ rest) (hk : k < f.header.length)
    (hfull : f.header.length ≤ k + left.length) (fuel : ℕ) :
    advanceLoop data (fuel + 1) ⟨f.inHeader i k, s, o, shouldClose, ready⟩ =
      (do
        let a ← Advance.payload ⟨f.inPayload i 0 (makeBigBuffer 256), s,
          (o + (f.header.length - k) : ℕ), if k < 2 then f.closeBit else shouldClose, ready⟩ data
        advanceLoop data fuel a) := by
  have hlen := h.length
  have hin : (o : ℤ) < data.length := by omega
  have htwo := f.two_le_header
  have hskip (sc : Bool) (o' : ℕ) :
      Advance.restOfHeader ⟨f.inPayload i 0 (makeBigBuffer 256), s, o', sc, ready⟩ data =
        .ok (⟨f.inPayload i 0 (makeBigBuffer 256), s, o', sc, ready⟩, true) :=
    restOfHeader_skip le_rfl
  rw [advanceLoop, if_pos hin]
  by_cases hlow : k < 2
  · rw [firstBytes_full s shouldClose ready h hleft hlow (by omega), if_pos hlow]
    by_cases hheader : f.header.length = 2
    · have hafter : f.afterFirstBytes i = f.inPayload i 0 (makeBigBuffer 256) := if_pos hheader
      simp only [Exec.ok_bind, hafter, hskip, hheader]
      rfl
    · have hafter : f.afterFirstBytes i = f.inHeader i 2 := if_neg hheader
      have hleft' := drop_prefix hleft (show 2 - k ≤ left.length by omega) hlow.le
        (by rw [wire_length]; omega)
      have hrest := restOfHeader_full (i := i) s f.closeBit ready hpay
        (h.advance (show 2 - k ≤ left.length by omega)) hleft' le_rfl (by omega)
        (by rw [List.length_drop]; omega)
      have hsum : o + (2 - k) + (f.header.length - 2) = o + (f.header.length - k) := by omega
      rw [hsum] at hrest
      simp only [Exec.ok_bind, hafter, hrest]
      rfl
  · rw [firstBytes_skip (by rw [inHeader_headerFill hk.le]; omega), if_neg hlow]
    simp only [Exec.ok_bind,
      restOfHeader_full s shouldClose ready hpay h hleft (by omega) hk hfull]
    rfl

theorem loop_payload (h : Left data o left) (hne : left ≠ []) (n : ℕ) (stream : BigBuffer)
    (fuel : ℕ) :
    advanceLoop data (fuel + 1) ⟨f.inPayload i n stream, s, o, shouldClose, ready⟩ =
      (do
        let a ← Advance.payload ⟨f.inPayload i n stream, s, o, shouldClose, ready⟩ data
        advanceLoop data fuel a) := by
  have hpos : 0 < left.length := List.length_pos_iff.mpr hne
  have hlen := h.length
  have hin : (o : ℤ) < data.length := by omega
  have hfirst : Advance.firstBytes ⟨f.inPayload i n stream, s, o, shouldClose, ready⟩ data =
      .ok (⟨f.inPayload i n stream, s, o, shouldClose, ready⟩, true) :=
    firstBytes_skip f.two_le_header
  have hrest : Advance.restOfHeader ⟨f.inPayload i n stream, s, o, shouldClose, ready⟩ data =
      .ok (⟨f.inPayload i n stream, s, o, shouldClose, ready⟩, true) :=
    restOfHeader_skip le_rfl
  rw [advanceLoop, if_pos hin, hfirst]
  simp only [Exec.ok_bind, hrest]
  rfl

end Phases

def writePiece (f : Frame) (payloadStream : BigBuffer) (piece : List Byte) : Exec BigBuffer :=
  if f.mask.isSome then piece.foldlM writeByteToBigBuffer payloadStream
  else writeToBigBuffer payloadStream piece

theorem writeMasked_eq {mask : Fin 4 → Byte} {m : WSReadMachine} {n : ℕ}
    (hmask : m.maskBytes = List.ofFn mask) (hmodulus : m.maskModulus = n % 4) (piece : List Byte) :
    m.writeMasked (masked (some mask) n piece) = (do
      let payloadStream ← piece.foldlM writeByteToBigBuffer m.payloadStream
      return { m with payloadStream := payloadStream, maskModulus := (n + piece.length) % 4 }) := by
  induction piece generalizing m n with
  | nil =>
    cases m
    simp_all [masked, WSReadMachine.writeMasked]
  | cons b piece ih =>
    have hbyte : m.maskBytes.getD m.maskModulus 0 = mask (Fin.ofNat 4 n) := by
      have hlt : n % 4 < 4 := Nat.mod_lt n (by decide)
      rw [hmask, hmodulus, List.getD_eq_getElem?_getD, List.getElem?_ofFn, dif_pos hlt]
      rfl
    have hundo : b ^^^ mask (Fin.ofNat 4 n) ^^^ mask (Fin.ofNat 4 n) = b := by
      rw [BitVec.xor_assoc, BitVec.xor_self, BitVec.xor_zero]
    have hnext : (if m.maskModulus + 1 = 4 then 0 else m.maskModulus + 1) = (n + 1) % 4 := by
      rw [hmodulus]
      split <;> omega
    simp only [masked, WSReadMachine.writeMasked, hbyte, hundo, hnext, List.foldlM_cons]
    cases hwrite : writeByteToBigBuffer m.payloadStream b with
    | error fault => rfl
    | ok payloadStream =>
      simp only [Exec.ok_bind]
      rw [@ih { m with payloadStream := payloadStream, maskModulus := (n + 1) % 4 } (n + 1) hmask rfl]
      simp only [List.length_cons, Nat.add_assoc, Nat.add_comm 1]

/-- The bytes of the payload that the data have, from a place on. -/
def piece (f : Frame) (n : ℕ) (left : List Byte) : List Byte := (f.payload.drop n).take left.length

theorem piece_length (f : Frame) (n : ℕ) (left : List Byte) :
    (f.piece n left).length = min left.length (f.payload.length - n) := by
  simp [piece]

theorem take_append_piece (f : Frame) (n : ℕ) (left : List Byte) :
    f.payload.take n ++ f.piece n left = f.payload.take (n + (f.piece n left).length) := by
  have hpiece : f.piece n left = (f.payload.drop n).take (f.piece n left).length := by
    rw [piece, List.length_take, ← List.take_take, List.take_length]
  rw [List.take_add, ← hpiece]

section Payload

variable {f : Frame} {i : Idle} {data left rest : List Byte} {o n : ℕ}

theorem writeLength_eq (stream : BigBuffer) (hn : n ≤ f.payload.length)
    (hsmall : f.payload.length < 2 ^ 31) :
    (f.inPayload i n stream).writeLength left.length = (f.piece n left).length := by
  rw [piece_length]
  unfold WSReadMachine.writeLength inPayload
  simp only
  split
  · next hlt =>
    have hint : (BitVec.ofInt 32 ((f.payload.length : ℤ) - n)).toInt = f.payload.length - n := by
      rw [BitVec.toInt_ofInt]
      exact Int.bmod_eq_of_le (by omega) (by omega)
    rw [hint]
    omega
  · omega

theorem readPayload_eq (h : Left data o left) (hleft : left <+: f.wire.drop (f.header.length + n) ++ rest)
    (stream : BigBuffer) (hn : n ≤ f.payload.length) (hsmall : f.payload.length < 2 ^ 31) :
    (f.inPayload i n stream).readPayload data o left.length = (do
      let stream ← f.writePiece stream (f.piece n left)
      return f.inPayload i (n + (f.piece n left).length) stream) := by
  have hlen := f.piece_length n left
  have hle : (f.piece n left).length ≤ left.length := by omega
  have hdata : dataAt data o (f.piece n left).length = .ok (masked f.mask n (f.piece n left)) := by
    rw [h.dataAt_eq hle, take_of_starts hleft hle (by rw [wire_length]; omega), wire_payload,
      piece, List.length_take, ← List.take_take, List.take_length]
  unfold WSReadMachine.readPayload
  simp only [writeLength_eq stream hn hsmall, Int.toNat_natCast, hdata, Exec.ok_bind]
  unfold writePiece
  cases hmask : f.mask with
  | none =>
    have hnot : (f.inPayload i n stream).isMasked = false := by simp [inPayload, hmask]
    have hnonneg : ¬ ((f.piece n left).length : ℤ) < 0 := by omega
    simp only [hnot, hnonneg, masked_none, Bool.false_eq_true, if_false, Option.isSome_none]
    have hstream : (f.inPayload i n stream).payloadStream = stream := rfl
    rw [hstream]
    cases writeToBigBuffer stream (f.piece n left) with
    | error fault => rfl
    | ok stream => simp [inPayload, hmask]
  | some mask =>
    have hyes : (f.inPayload i n stream).isMasked = true := by simp [inPayload, hmask]
    have hbytes : (f.inPayload i n stream).maskBytes = List.ofFn mask := by
      simp [inPayload, maskBytes, hmask]
    have hmodulus : (f.inPayload i n stream).maskModulus = n % 4 := by simp [inPayload, hmask]
    have hstream : (f.inPayload i n stream).payloadStream = stream := rfl
    simp only [hyes, if_true, Option.isSome_some, writeMasked_eq hbytes hmodulus, hstream]
    cases (f.piece n left).foldlM writeByteToBigBuffer stream with
    | error fault => rfl
    | ok stream => simp [inPayload, hmask]

/-- What a frame that is whole changes. -/
def complete (f : Frame) (i : Idle) (wsSession : WSSession) (shouldClose : Bool) :
    Exec (Idle × WSSession) := do
  let message := addWSFrame (i.currentMessage.getD (makeMessage OPCODE_UNKNOWN))
    ⟨f.opcodeAndFlags, f.payload⟩
  let wsSession ←
    if f.fin && shouldClose then
      let payload := match message.frames with
        | firstFrame :: _ => firstFrame.data
        | [] => []
      wsMessageClose { wsSession with closeRequested := true } f.opcodeAndFlags payload
    else pure wsSession
  return (
    { maskBytes := if f.mask.isSome then f.maskBytes else i.maskBytes
      currentMessage := if f.fin then none else some message
      messageQueue := if f.fin then i.messageQueue ++ [message] else i.messageQueue },
    wsSession)

theorem completeFrame_eq {stream : BigBuffer} (hstream : stream.data = f.payload) (n : ℕ)
    (s : WSSession) (shouldClose : Bool) :
    (f.inPayload i n stream).completeFrame s shouldClose = (do
      let (i, s) ← f.complete i s shouldClose
      return (i.machine, s)) := by
  unfold WSReadMachine.completeFrame complete
  simp only [inPayload, hstream]
  split
  · cases wsMessageClose _ _ _ with
    | error fault => rfl
    | ok s => rfl
  · rfl

theorem payload_eq (h : Left data o left) (hleft : left <+: f.wire.drop (f.header.length + n) ++ rest)
    (stream : BigBuffer) (hn : n ≤ f.payload.length) (hsmall : f.payload.length < 2 ^ 31)
    (s : WSSession) (shouldClose ready : Bool) :
    Advance.payload ⟨f.inPayload i n stream, s, o, shouldClose, ready⟩ data = (do
      let stream ← f.writePiece stream (f.piece n left)
      let o' := o + (f.piece n left).length
      if n + (f.piece n left).length = f.payload.length then
        let (m, s) ← (f.inPayload i f.payload.length stream).completeFrame s shouldClose
        return ⟨m, s, o', shouldClose, true⟩
      else
        return ⟨f.inPayload i (n + (f.piece n left).length) stream, s, o', shouldClose, ready⟩) := by
  have hread : (f.inPayload i n stream).headerRead = true := rfl
  unfold Advance.payload
  simp only [hread, if_true, h.available, readPayload_eq h hleft stream hn hsmall,
    writeLength_eq stream hn hsmall]
  cases f.writePiece stream (f.piece n left) with
  | error fault => rfl
  | ok stream =>
    simp only [Exec.ok_bind, Exec.pure_eq_ok]
    have hfill : (f.inPayload i (n + (f.piece n left).length) stream).payloadFill =
        ((n + (f.piece n left).length : ℕ) : ℤ) := rfl
    have hlength : (f.inPayload i (n + (f.piece n left).length) stream).payloadLength =
        (f.payload.length : ℤ) := rfl
    rw [hfill, hlength]
    by_cases hall : n + (f.piece n left).length = f.payload.length
    · rw [if_pos (by exact_mod_cast hall), if_pos hall, hall, Int.natCast_add]
    · rw [if_neg (by exact_mod_cast hall), if_neg hall, Int.natCast_add]

end Payload

section Complete

variable {f : Frame} {i : Idle}

def message (f : Frame) (i : Idle) : WSMessage :=
  addWSFrame (i.currentMessage.getD (makeMessage OPCODE_UNKNOWN)) ⟨f.opcodeAndFlags, f.payload⟩

def next (f : Frame) (i : Idle) : Idle where
  maskBytes := if f.mask.isSome then f.maskBytes else i.maskBytes
  currentMessage := if f.fin then none else some (f.message i)
  messageQueue := if f.fin then i.messageQueue ++ [f.message i] else i.messageQueue

theorem complete_eq (f : Frame) (i : Idle) (s : WSSession) (shouldClose : Bool)
    (hfits : ∀ frame ∈ (f.message i).frames, frame.data.length ≤ 2 ^ 30) :
    ∃ s', f.complete i s shouldClose = .ok (f.next i, s') ∧
      s'.closeRequested = (s.closeRequested || (f.fin && shouldClose)) ∧
      s'.replies = s.replies ++ if f.fin && shouldClose then [f.opcodeAndFlags] else [] := by
  cases hclose : f.fin && shouldClose with
  | false =>
    refine ⟨s, ?_, by simp, by simp⟩
    unfold complete
    simp only [hclose]
    rfl
  | true =>
    have hlen : (match (f.message i).frames with
        | firstFrame :: _ => firstFrame.data
        | [] => []).length ≤ 2 ^ 30 := by
      cases hframes : (f.message i).frames with
      | nil => simp
      | cons firstFrame frames =>
        exact hfits firstFrame (by rw [hframes]; exact List.mem_cons_self)
    obtain ⟨buffer, hbuffer, hhead⟩ := addNewWSFrame_head f.opcodeAndFlags hlen
    refine ⟨⟨true, s.closeHandshakes ++ [buffer]⟩, ?_, by simp, ?_⟩
    · unfold complete
      simp only [hclose, if_true, wsMessageClose]
      unfold message at hbuffer
      rw [hbuffer]
      rfl
    · simp [WSSession.replies, hhead]

end Complete

end Frame

end WebSocket
end ZoweCommon
