import ZoweCommon.Json.BufferMemory
import ZoweCommon.Lib.QuotedText

/-! Strings of a configuration as they are written for a shell to read them. -/
namespace ZoweCommon

open CString
open BufferMemory (store store_eq)
open Slices (splice splice_append)

/-- A block of so many bytes, and how many of them have been written. -/
structure EnvBuffer where
  buffer : List Byte
  bufferSize : ℕ
  pos : ℕ

/-- What `snprintf` writes, as much as there is room for. Sizes below zero wrap around. -/
def EnvBuffer.put (e : EnvBuffer) (text : List Byte) : Exec EnvBuffer := do
  let room := if e.pos ≤ e.bufferSize then e.bufferSize - e.pos else e.bufferSize + 2 ^ 64 - e.pos
  if room = 0 then return { e with pos := e.pos + text.length }
  let buffer ← store e.buffer e.pos (text.take (room - 1) ++ [0])
  return { e with buffer := buffer, pos := e.pos + text.length }

/-- Both tests are for the quote. -/
def escapeCharForEnv (isKey : Bool) (e : EnvBuffer) (c : Byte) : Exec EnvBuffer := do
  let e ← if c = 0x22 ∨ c = 0x22 then e.put (ascii "\\") else pure e
  e.put [if isKey ∧ c = 0x2D then 0x5F else c]

/-- The buffer with the text in it, and the length of that. The loop counts in an `int`. -/
def escapeForEnv (s : CString) (isKey : Bool) (buffer : List Byte) (bufferSize : ℕ) :
    Exec (List Byte × ℕ) := do
  let len := (BitVec.ofNat 32 s.bytes.length).toInt
  let buffer ← store buffer 0 (List.replicate bufferSize 0)
  let e ← (s.bytes.take len.toNat).foldlM (escapeCharForEnv isKey) ⟨buffer, bufferSize, 0⟩
  return (e.buffer, e.pos)

/-- A local array, whatever is in it. -/
def escapedArray (escapedSize : ℕ) : List Byte := List.replicate escapedSize 0xFF

def outputEnvKey (out : List Byte) (str : CString) : Exec (List Byte) := do
  let escapedSize := str.bytes.length * 2 + 1
  let escaped ← escapeForEnv str true (escapedArray escapedSize) escapedSize
  return out ++ (ofBytes escaped.1).bytes ++ ascii "="

def outputEnvString (out : List Byte) (str : CString) : Exec (List Byte) := do
  let escapedSize := str.bytes.length * 2 + 1
  let escaped ← escapeForEnv str false (escapedArray escapedSize) escapedSize
  return out ++ ascii "\"" ++ (ofBytes escaped.1).bytes ++ ascii "\"\n"

/-- No store is outside of the buffer, be the string a key or not, and what is written for it
between its quotes is read back, with nothing behind the closing quote but what was there. -/
def EnvReadsBack (str : CString) : Prop :=
  (∀ isKey escaped, escaped.length = str.bytes.length * 2 + 1 →
    ∃ r, escapeForEnv str isKey escaped (str.bytes.length * 2 + 1) = .ok r) ∧
  ∀ out more, ∃ text, outputEnvString out str = .ok (out ++ 0x22 :: text) ∧
    QuotedText.read 0x22 0x5C (text ++ more) = some (str.bytes, ascii "\n" ++ more)

/-! What is in the buffer -/

def isQuote (c : Byte) : Bool := c = 0x22

/-- A string as it is written. -/
def envText (isKey : Bool) (text : List Byte) : List Byte :=
  QuotedText.escape 0x5C isQuote (text.map fun c => if isKey ∧ c = 0x2D then 0x5F else c)

/-- The block has the text at its beginning and is zero behind it, with room for a terminator. -/
structure EnvBuffer.Holds (e : EnvBuffer) (text : List Byte) : Prop where
  pos_eq : e.pos = text.length
  room : text.length < e.bufferSize
  buffer_eq : e.buffer = text ++ List.replicate (e.bufferSize - text.length) 0

theorem EnvBuffer.Holds.put {e : EnvBuffer} {text more : List Byte} (h : e.Holds text)
    (hroom : text.length + more.length < e.bufferSize) :
    ∃ e', e.put more = .ok e' ∧ e'.bufferSize = e.bufferSize ∧ e'.Holds (text ++ more) := by
  have htake : more.take (e.bufferSize - e.pos - 1) = more := by
    rw [h.pos_eq]
    exact List.take_of_length_le (by omega)
  have hsplit : e.buffer = text ++ (List.replicate (more ++ [(0 : Byte)]).length 0 ++
      List.replicate (e.bufferSize - (text ++ more ++ [(0 : Byte)]).length) 0) := by
    rw [h.buffer_eq, List.replicate_append_replicate]
    congr 2
    simp only [List.length_append, List.length_singleton]
    omega
  have hstore : store e.buffer e.pos (more ++ [0]) =
      .ok (text ++ more ++ List.replicate (e.bufferSize - (text ++ more).length) 0) := by
    rw [h.pos_eq, store_eq (by
      rw [h.buffer_eq]
      simp only [List.length_append, List.length_replicate, List.length_singleton]
      omega), hsplit, splice_append rfl List.length_replicate.symm]
    have hzeros : e.bufferSize - (text ++ more).length =
        e.bufferSize - (text ++ more ++ [(0 : Byte)]).length + 1 := by
      simp only [List.length_append, List.length_singleton]
      omega
    rw [hzeros, List.replicate_succ]
    simp
  have hpos := h.pos_eq
  unfold EnvBuffer.put
  dsimp only
  rw [if_pos (show e.pos ≤ e.bufferSize by omega),
    if_neg (show ¬e.bufferSize - e.pos = 0 by omega), htake, hstore]
  refine ⟨_, rfl, rfl, ?_, ?_, rfl⟩
  · rw [hpos, List.length_append]
  · rwa [List.length_append]

/-- No character takes more than two bytes. -/
theorem EnvBuffer.Holds.escapeCharForEnv {e : EnvBuffer} {text : List Byte} (h : e.Holds text)
    (hroom : text.length + 2 < e.bufferSize) (isKey : Bool) (c : Byte) :
    ∃ e', escapeCharForEnv isKey e c = .ok e' ∧ e'.bufferSize = e.bufferSize ∧
      e'.Holds (text ++ envText isKey [c]) ∧ (envText isKey [c]).length ≤ 2 := by
  unfold ZoweCommon.escapeCharForEnv
  by_cases hquote : c = 0x22
  · obtain ⟨e₁, hput, hsize, hholds⟩ := @EnvBuffer.Holds.put e text (ascii "\\") h (by
      show text.length + 1 < e.bufferSize
      omega)
    have htext : envText isKey [c] = ascii "\\" ++ [c] := by
      rw [hquote]
      cases isKey <;> decide
    have hplain : (if isKey = true ∧ c = 0x2D then 0x5F else c) = c := by
      rw [if_neg]
      rintro ⟨-, hdash⟩
      rw [hquote] at hdash
      revert hdash
      decide
    obtain ⟨e₂, hput', hsize', hholds'⟩ := @EnvBuffer.Holds.put e₁ _ [c] hholds (by
      rw [hsize, List.length_append]
      exact hroom)
    refine ⟨e₂, ?_, hsize'.trans hsize, ?_, ?_⟩
    · rw [if_pos (.inl hquote), hput, Exec.ok_bind, hplain]
      exact hput'
    · rwa [htext, ← List.append_assoc]
    · rw [htext]
      exact le_rfl
  · have hnot : isQuote (if isKey = true ∧ c = 0x2D then 0x5F else c) ≠ true := by
      unfold isQuote
      split_ifs with hdash
      · decide
      · simpa using hquote
    have htext : envText isKey [c] = [if isKey = true ∧ c = 0x2D then 0x5F else c] :=
      QuotedText.escape_cons_plain hnot []
    obtain ⟨e', hput, hsize, hholds⟩ := @EnvBuffer.Holds.put e text
      [if isKey = true ∧ c = 0x2D then 0x5F else c] h (by
        rw [List.length_singleton]
        omega)
    refine ⟨e', ?_, hsize, by rwa [htext], ?_⟩
    · have hneither : ¬(c = 0x22 ∨ c = 0x22) := by rwa [or_self]
      rw [if_neg hneither]
      exact hput
    · rw [htext, List.length_singleton]
      omega

theorem envText_cons (isKey : Bool) (c : Byte) (text : List Byte) :
    envText isKey (c :: text) = envText isKey [c] ++ envText isKey text := by
  unfold envText QuotedText.escape
  rw [List.map_cons, List.flatMap_cons, List.map_singleton, List.flatMap_singleton]

/-- By induction on the characters that are left, each of which has two bytes of room. -/
theorem EnvBuffer.Holds.foldlM {isKey : Bool} {left : List Byte} : ∀ {e : EnvBuffer}
    {text : List Byte}, e.Holds text → text.length + 2 * left.length < e.bufferSize →
    ∃ e', left.foldlM (ZoweCommon.escapeCharForEnv isKey) e = .ok e' ∧
      e'.bufferSize = e.bufferSize ∧ e'.Holds (text ++ envText isKey left) := by
  induction left with
  | nil =>
    intro e text h _
    exact ⟨e, rfl, rfl, by rwa [envText, List.map_nil, QuotedText.escape_nil, List.append_nil]⟩
  | cons c left ih =>
    intro e text h hroom
    rw [List.length_cons] at hroom
    obtain ⟨e₁, hstep, hsize, hholds, hlength⟩ := h.escapeCharForEnv (by omega) isKey c
    obtain ⟨e₂, hloop, hsize', hholds'⟩ := ih hholds (by
      rw [hsize, List.length_append]
      omega)
    refine ⟨e₂, ?_, hsize'.trans hsize, ?_⟩
    · rw [List.foldlM_cons, hstep]
      exact hloop
    · rwa [envText_cons, ← List.append_assoc]

theorem length_escapedArray (escapedSize : ℕ) : (escapedArray escapedSize).length = escapedSize :=
  List.length_replicate

/-- The characters that the loop comes to. -/
def envCounted (s : CString) : List Byte :=
  s.bytes.take (BitVec.ofNat 32 s.bytes.length).toInt.toNat

theorem noNul_envText {isKey : Bool} {text : List Byte} (h : NoNul text) :
    NoNul (envText isKey text) := by
  induction text with
  | nil => exact NoNul.nil
  | cons c text ih =>
    have hc : c ≠ 0 := h c List.mem_cons_self
    have hsingle : NoNul (envText isKey [c]) := by
      unfold envText QuotedText.escape
      rw [List.map_singleton, List.flatMap_singleton]
      obtain ⟨d, hd⟩ : ∃ d, (if isKey = true ∧ c = 0x2D then 0x5F else c) = d := ⟨_, rfl⟩
      have hne : d ≠ 0 := by
        rw [← hd]
        split_ifs
        · decide
        · exact hc
      rw [hd]
      split_ifs
      · exact (NoNul.nil.cons hne).cons (by decide)
      · exact NoNul.nil.cons hne
    rw [envText_cons]
    exact hsingle.append (ih fun b hb => h b (List.mem_cons_of_mem _ hb))

/-- Into a buffer of that size, all is stored that the loop comes to. -/
theorem escapeForEnv_eq (s : CString) (isKey : Bool) {buffer : List Byte}
    (hbuffer : buffer.length = s.bytes.length * 2 + 1) :
    ∃ r, escapeForEnv s isKey buffer (s.bytes.length * 2 + 1) = .ok r ∧
      (ofBytes r.1).bytes = envText isKey (envCounted s) := by
  have hmemset : store buffer 0 (List.replicate (s.bytes.length * 2 + 1) 0) =
      .ok (List.replicate (s.bytes.length * 2 + 1) 0) := by
    have hstore := @store_eq buffer (List.replicate (s.bytes.length * 2 + 1) 0) 0 (by
      rw [List.length_replicate, hbuffer]
      omega)
    refine hstore.trans (congrArg Except.ok ?_)
    unfold splice
    rw [List.take_zero, List.nil_append, List.length_replicate, Nat.zero_add,
      List.drop_eq_nil_of_le hbuffer.le, List.append_nil]
  have hholds : EnvBuffer.Holds
      ⟨List.replicate (s.bytes.length * 2 + 1) 0, s.bytes.length * 2 + 1, 0⟩ [] :=
    ⟨rfl, Nat.succ_pos _, rfl⟩
  have hcounted : (envCounted s).length ≤ s.bytes.length := List.length_take_le' _ _
  obtain ⟨e, hloop, -, hfilled⟩ := @EnvBuffer.Holds.foldlM isKey (envCounted s) _ _ hholds (by
    rw [List.length_nil]
    dsimp only
    omega)
  rw [List.nil_append] at hfilled
  refine ⟨(e.buffer, e.pos), ?_, ?_⟩
  · unfold escapeForEnv
    dsimp only
    rw [hmemset, Exec.ok_bind]
    exact Exec.bind_eq_ok.mpr ⟨e, hloop, rfl⟩
  · obtain ⟨k, hk⟩ := Nat.exists_eq_add_of_lt hfilled.room
    have hzeros : e.bufferSize - (envText isKey (envCounted s)).length = k + 1 := by omega
    have hnoNul : NoNul (envCounted s) := s.noNul.take _
    rw [hfilled.buffer_eq, hzeros, List.replicate_succ, ofBytes_terminated,
      ofBytes_of_noNul (noNul_envText hnoNul)]

theorem outputEnvString_eq (out : List Byte) (str : CString) :
    outputEnvString out str =
      .ok (out ++ 0x22 :: (envText false (envCounted str) ++ 0x22 :: ascii "\n")) := by
  obtain ⟨r, hrun, hbytes⟩ := escapeForEnv_eq str false (length_escapedArray _)
  unfold outputEnvString
  dsimp only
  rw [hrun, Exec.ok_bind, hbytes]
  simp [ascii]

/-! Reading back -/

theorem envText_value (text : List Byte) :
    envText false text = QuotedText.escape 0x5C isQuote text := by
  unfold envText
  simp

theorem isQuote_iff (c : Byte) : isQuote c = true ↔ c = 0x22 := decide_eq_true_iff

theorem EnvReadsBack.plain {str : CString} (h : EnvReadsBack str) :
    0x5C ∉ str.bytes ∧ str.bytes.length < 2 ^ 31 := by
  obtain ⟨text, hrun, hread⟩ := h.2 [] []
  rw [outputEnvString_eq, Except.ok.injEq, List.nil_append, List.nil_append, List.cons.injEq]
    at hrun
  rw [← hrun.2, envText_value, List.append_assoc, List.cons_append] at hread
  have hle := (QuotedText.length_of_read_escape (by decide) isQuote_iff le_rfl hread).1
  have hcount : str.bytes.length ≤ (BitVec.ofNat 32 str.bytes.length).toInt.toNat := by
    unfold envCounted at hle
    rw [List.length_take] at hle
    omega
  have hall : envCounted str = str.bytes := List.take_of_length_le hcount
  rw [hall, QuotedText.read_escape_iff (by decide) isQuote_iff] at hread
  have hlt := (BitVec.ofNat 32 str.bytes.length).toInt_lt
  exact ⟨hread, by omega⟩

/-- A string is read back just if it has no backslash and its length fits in an `int`. -/
theorem envReadsBack_iff (str : CString) :
    EnvReadsBack str ↔ 0x5C ∉ str.bytes ∧ str.bytes.length < 2 ^ 31 := by
  constructor
  · exact EnvReadsBack.plain
  · rintro ⟨hplain, hlength⟩
    have hint : (BitVec.ofNat 32 str.bytes.length).toInt = str.bytes.length :=
      CLibrary.toInt_length hlength
    have hall : envCounted str = str.bytes := by
      unfold envCounted
      rw [hint, Int.toNat_natCast, List.take_length]
    constructor
    · intro isKey escaped hescaped
      obtain ⟨r, hrun, -⟩ := escapeForEnv_eq str isKey hescaped
      exact ⟨r, hrun⟩
    · intro out more
      refine ⟨_, outputEnvString_eq out str, ?_⟩
      rw [hall, envText_value, List.append_assoc, List.cons_append]
      exact (QuotedText.read_escape_iff (by decide) isQuote_iff _ _).mpr hplain

/-- The string is one backslash, which takes the closing quote along. -/
theorem not_envReadsBack : ¬ EnvReadsBack (ofBytes (ascii "\\")) :=
  fun h => h.plain.1 (by decide)

end ZoweCommon
