import ZoweCommon.Basic.HexText
import ZoweCommon.Http.ChunkedOutput

/-! What a client makes of a response in chunks. -/
namespace ZoweCommon
namespace Http

open CLibrary (formatX)
open ChunkedBody (chunk encode)

/-- One write to a stream. -/
inductive OutputCall
  | writeBytes (data : List Byte) (translate : Bool) (fits : data.length < 2 ^ 31)
  | writeString (string : CString)

/-- How a response ends. -/
inductive OutputEnd
  | finishChunkedOutput (translate : Bool)
  | finishResponse (jp : Bool)

namespace OutputCall

def text : OutputCall → List Byte
  | writeBytes data _ _ => data
  | writeString string => string.bytes

def translate : OutputCall → Bool
  | writeBytes _ translate _ => translate
  | writeString _ => true

def len : OutputCall → ℤ
  | writeBytes data _ _ => data.length
  | writeString string => (BitVec.ofNat 32 string.strlen).toInt

/-- The bytes that are taken. -/
def taken (c : OutputCall) : List Byte := c.text.take c.len.toNat

def wanted (c : OutputCall) : List Byte :=
  ChunkedOutputStream.translated c.translate c.text

def perform (writeFully : WriteFully) (s : ChunkedOutputStream) :
    OutputCall → Exec ChunkedOutputStream
  | writeBytes data translate _ => s.writeBytes writeFully data data.length translate
  | writeString string => s.writeString writeFully string

theorem perform_eq (writeFully : WriteFully) (s : ChunkedOutputStream) (c : OutputCall) :
    c.perform writeFully s = s.writeBytes writeFully c.text c.len c.translate := by
  cases c <;> rfl

theorem len_of_fits {c : OutputCall} (h : c.text.length < 2 ^ 31) : c.len = c.text.length := by
  cases c with
  | writeBytes data translate fits => rfl
  | writeString string =>
    have hlt : string.bytes.length < 2 ^ 31 := h
    show (BitVec.ofNat 32 string.bytes.length).toInt = (string.bytes.length : ℤ)
    rw [BitVec.toInt_eq_toNat_cond, BitVec.toNat_ofNat, Nat.mod_eq_of_lt (by omega),
      if_pos (by omega)]

/-- The length of a text that is too long is made another one. -/
theorem len_lt_of_not_fits {c : OutputCall} (h : ¬c.text.length < 2 ^ 31) :
    c.len < c.text.length := by
  cases c with
  | writeBytes data translate fits => exact absurd fits h
  | writeString string =>
    have hle : ¬string.bytes.length < 2 ^ 31 := h
    have hlt := (BitVec.ofNat 32 string.bytes.length).toInt_lt
    show (BitVec.ofNat 32 string.bytes.length).toInt < (string.bytes.length : ℤ)
    omega

end OutputCall

def OutputEnd.translate : OutputEnd → Bool
  | finishChunkedOutput translate => translate
  | finishResponse jp => !jp

def OutputEnd.perform (writeFully : WriteFully) (s : ChunkedOutputStream) :
    OutputEnd → Exec ChunkedOutputStream
  | finishChunkedOutput translate => s.finishChunkedOutput writeFully translate
  | finishResponse jp => s.finishResponse writeFully jp

theorem OutputEnd.perform_eq (writeFully : WriteFully) (s : ChunkedOutputStream) (e : OutputEnd) :
    e.perform writeFully s = s.finishChunkedOutput writeFully e.translate := by
  cases e <;> rfl

/-- A stream's whole life. -/
def respond (writeFully : WriteFully) (runningInSubtask : Bool) (calls : List OutputCall)
    (finish : OutputEnd) : Exec ChunkedOutputStream := do
  let s ← calls.foldlM (fun s c => c.perform writeFully s)
    (ChunkedOutputStream.makeChunkedOutputStreamInternal runningInSubtask)
  finish.perform writeFully s

/-- What is sent is one chunked body with all that was written. -/
def DecodesToWritten (writeFully : WriteFully) (runningInSubtask : Bool) (calls : List OutputCall)
    (finish : OutputEnd) : Prop :=
  ∃ s, respond writeFully runningInSubtask calls finish = .ok s ∧
    ChunkedBody.decode s.sent = some (calls.flatMap OutputCall.wanted)

/-- Whether what is in the buffer is translated when it is written: the next call that fills the
buffer says so, or the end. -/
def flushFlag (fill : ℕ) (finish : OutputEnd) : List OutputCall → Bool
  | [] => finish.translate
  | c :: calls =>
    if 1024 ≤ fill + c.text.length then c.translate
    else flushFlag (fill + c.text.length) finish calls

/-- Each text that waits in the buffer is translated as its own call asked, or is the same in both
code pages. -/
def FlagsAgree (fill : ℕ) (finish : OutputEnd) : List OutputCall → Prop
  | [] => True
  | c :: calls =>
    if 1024 ≤ fill + c.text.length then FlagsAgree 0 finish calls
    else (flushFlag (fill + c.text.length) finish calls = c.translate ∨
      ∀ b ∈ c.text, Ebcdic.toIso88591 b = b) ∧ FlagsAgree (fill + c.text.length) finish calls

structure CanDecode (runningInSubtask : Bool) (calls : List OutputCall) (finish : OutputEnd) :
    Prop where
  mainTask : runningInSubtask = false
  lengths : ∀ c ∈ calls, c.text.length < 2 ^ 31
  flags : FlagsAgree 0 finish calls

namespace ChunkedOutputStream

variable {writeFully : WriteFully} {s : ChunkedOutputStream}

structure Working (s : ChunkedOutputStream) : Prop where
  mainTask : s.runningInSubtask = false
  noError : s.isErrorState = false

def send (s : ChunkedOutputStream) (data : List Byte) : ChunkedOutputStream :=
  { s with sent := s.sent ++ data }

@[simp] theorem send_send (a b : List Byte) : (s.send a).send b = s.send (a ++ b) := by
  unfold send
  rw [List.append_assoc]

theorem Working.send (h : s.Working) (data : List Byte) : (s.send data).Working := ⟨h.1, h.2⟩

theorem chunkWrite_ok (hw : writeFully.Succeeds) (h : s.Working) (data : List Byte) :
    s.chunkWrite writeFully data = .ok (s.send data) := by
  unfold chunkWrite
  rw [if_neg (by simp [h.noError]), if_neg (by simp [h.mainTask]), hw]
  unfold ChunkedOutputStream.send
  rw [h.noError]
  rfl

theorem writeTransferChunkHeader_ok (hw : writeFully.Succeeds) (h : s.Working) (size : ℕ) :
    s.writeTransferChunkHeader writeFully size =
      .ok (s.send (formatX 0 size ++ ChunkedBody.CRLF)) := by
  unfold writeTransferChunkHeader
  have hline : Ebcdic.toASCIIUTF8 ((formatX 0 size).map Ebcdic.toIbm1047 ++ [0x0D, 0x15]) =
      formatX 0 size ++ ChunkedBody.CRLF := by
    rw [Ebcdic.toASCIIUTF8_append, Ebcdic.toASCIIUTF8_map_toIbm1047]
    have hend : Ebcdic.toASCIIUTF8 [0x0D, 0x15] = ChunkedBody.CRLF := by decide
    rw [hend]
  dsimp only
  rw [hline, chunkWrite_ok hw h]

@[simp] theorem length_translated (translate : Bool) (data : List Byte) :
    (translated translate data).length = data.length := by
  unfold translated
  split_ifs <;> simp

theorem writeChunk_ok (hw : writeFully.Succeeds) (h : s.Working) {size : ℕ} {data : List Byte}
    (hsize : size = data.length) :
    (do
      let s ← s.writeTransferChunkHeader writeFully size
      let s ← s.chunkWrite writeFully data
      s.chunkWrite writeFully crlf) = Except.ok (s.send (chunk (formatX 0) data)) := by
  rw [writeTransferChunkHeader_ok hw h, Exec.ok_bind, chunkWrite_ok hw (h.send _), Exec.ok_bind,
    chunkWrite_ok hw ((h.send _).send _), send_send, send_send, hsize]
  unfold chunk
  simp only [List.append_assoc]
  rfl

/-- What is in the buffer, if there is anything, as a chunk. -/
def pending (translate : Bool) (s : ChunkedOutputStream) : List (List Byte) :=
  if 0 < s.fill then [translated translate s.buffer] else []

theorem pending_flatten (translate : Bool) :
    (pending translate s).flatten = translated translate s.buffer := by
  unfold pending fill
  split
  · simp
  · next hempty =>
    have hnil : s.buffer = [] := List.length_eq_zero_iff.mp (by omega)
    rw [hnil]
    cases translate <;> rfl

theorem pending_ne_nil (translate : Bool) : ∀ data ∈ pending translate s, data ≠ [] := by
  intro data hdata
  unfold pending at hdata
  split at hdata
  · next hfill =>
    rw [List.mem_singleton.mp hdata]
    apply List.ne_nil_of_length_pos
    rw [length_translated]
    exact hfill
  · cases hdata

theorem writeFill_ok (hw : writeFully.Succeeds) (h : s.Working) (translate : Bool) :
    s.writeFill writeFully translate =
      .ok (s.send ((pending translate s).flatMap (chunk (formatX 0)))) := by
  unfold writeFill pending
  split
  · have hsize : s.fill = (translated translate s.buffer).length := (length_translated _ _).symm
    rw [writeChunk_ok hw h hsize]
    simp
  · unfold ChunkedOutputStream.send
    simp

theorem finishChunkedOutput_ok (hw : writeFully.Succeeds) (h : s.Working) (translate : Bool) :
    s.finishChunkedOutput writeFully translate =
      .ok (s.send (encode (formatX 0) (pending translate s))) := by
  unfold finishChunkedOutput
  rw [writeFill_ok hw h, Exec.ok_bind, writeTransferChunkHeader_ok hw (h.send _), Exec.ok_bind,
    chunkWrite_ok hw ((h.send _).send _), send_send, send_send]
  unfold encode
  simp only [List.append_assoc]
  rfl

theorem writeBytes_cases (hw : writeFully.Succeeds) (h : s.Working) (hfill : s.fill < s.bufferSize)
    (data : List Byte) {len : ℤ} (hlen : len ≤ data.length) (translate : Bool) :
    (len < 0 ∧ s.writeBytes writeFully data len translate = .error .undefinedBehaviour) ∨
    (0 ≤ len ∧ s.bufferSize ≤ s.fill + len.toNat ∧ ∃ chunks : List (List Byte),
      (∀ c ∈ chunks, c ≠ []) ∧
      chunks.flatten = translated translate s.buffer ++ translated translate (data.take len.toNat) ∧
      s.writeBytes writeFully data len translate =
        .ok { s.send (chunks.flatMap (chunk (formatX 0))) with buffer := [] }) ∨
    (0 ≤ len ∧ s.fill + len.toNat < s.bufferSize ∧
      s.writeBytes writeFully data len translate =
        .ok { s with buffer := s.buffer ++ data.take len.toNat }) := by
  by_cases hneg : len < 0
  · left
    constructor
    · exact hneg
    · unfold writeBytes
      rw [if_neg (by omega), if_neg (by omega), if_pos hneg]
      rfl
  have htake : (data.take len.toNat).length = len.toNat := by
    rw [List.length_take]
    omega
  right
  by_cases hlong : s.bufferSize < len
  · left
    refine ⟨by omega, by omega, pending translate s ++ [translated translate (data.take len.toNat)],
      ?_, ?_, ?_⟩
    · intro c hc
      rcases List.mem_append.mp hc with hc | hc
      · exact pending_ne_nil translate c hc
      · rw [List.mem_singleton.mp hc]
        apply List.ne_nil_of_length_pos
        rw [length_translated, htake]
        omega
    · rw [List.flatten_append, pending_flatten, List.flatten_singleton]
    · unfold writeBytes
      rw [if_pos hlong, writeFill_ok hw h, Exec.ok_bind]
      have hsize : len.toNat = (translated translate (data.take len.toNat)).length := by
        rw [length_translated, htake]
      have hchunk := writeChunk_ok hw (h.send ((pending translate s).flatMap (chunk (formatX 0)))) hsize
      simp only [← bind_assoc] at hchunk ⊢
      rw [hchunk]
      rw [List.flatMap_append, List.flatMap_singleton, send_send]
      rfl
  by_cases hfull : (s.bufferSize : ℤ) ≤ s.fill + len
  · left
    have hsize : (s.fill + len).toNat = (translated translate s.buffer ++
        translated translate (data.take len.toNat)).length := by
      rw [List.length_append, length_translated, length_translated, htake]
      unfold fill
      omega
    refine ⟨by omega, by omega, [translated translate s.buffer ++
      translated translate (data.take len.toNat)], ?_, by simp, ?_⟩
    · intro c hc
      rw [List.mem_singleton.mp hc]
      apply List.ne_nil_of_length_pos
      rw [← hsize]
      omega
    · unfold writeBytes
      rw [if_neg hlong, if_pos hfull, writeTransferChunkHeader_ok hw h, Exec.ok_bind,
        chunkWrite_ok hw (h.send _), Exec.ok_bind, chunkWrite_ok hw ((h.send _).send _), Exec.ok_bind,
        chunkWrite_ok hw (((h.send _).send _).send _), Exec.ok_bind, hsize]
      simp only [send_send, List.flatMap_singleton]
      unfold chunk
      simp only [List.append_assoc]
      rfl
  · right
    refine ⟨by omega, by omega, ?_⟩
    unfold writeBytes
    rw [if_neg hlong, if_neg hfull, if_neg hneg]
    rfl

theorem translated_eq_iff (a b : Bool) (text : List Byte) :
    translated a text = translated b text ↔ a = b ∨ ∀ c ∈ text, Ebcdic.toIso88591 c = c := by
  have hself : Ebcdic.toASCIIUTF8 text = text ↔ ∀ c ∈ text, Ebcdic.toIso88591 c = c := by
    unfold Ebcdic.toASCIIUTF8
    induction text with
    | nil => simp
    | cons c text ih => rw [List.map_cons, List.cons_eq_cons, ih, List.forall_mem_cons]
  cases a <;> cases b
  · simp
  · rw [eq_comm]
    simp [translated, hself]
  · simp [translated, hself]
  · simp

end ChunkedOutputStream

open ChunkedOutputStream (translated)

def sentTexts (fill : ℕ) (finish : OutputEnd) : List OutputCall → List (List Byte)
  | [] => []
  | c :: calls =>
    if 1024 ≤ fill + c.text.length then
      translated c.translate c.text :: sentTexts 0 finish calls
    else
      translated (flushFlag (fill + c.text.length) finish calls) c.text ::
        sentTexts (fill + c.text.length) finish calls

section Runs

variable {writeFully : WriteFully} {s : ChunkedOutputStream} {calls : List OutputCall}
  {finish : OutputEnd}

theorem length_sentTexts (fill : ℕ) (finish : OutputEnd) (calls : List OutputCall) :
    (sentTexts fill finish calls).flatten.length = (calls.flatMap OutputCall.text).length := by
  induction calls generalizing fill with
  | nil => rfl
  | cons c calls ih =>
    rw [sentTexts, List.flatMap_cons, List.length_append]
    split_ifs <;>
      rw [List.flatten_cons, List.length_append, ih, ChunkedOutputStream.length_translated]

theorem length_wanted (calls : List OutputCall) :
    (calls.flatMap OutputCall.wanted).length = (calls.flatMap OutputCall.text).length := by
  induction calls with
  | nil => rfl
  | cons c calls ih =>
    rw [List.flatMap_cons, List.flatMap_cons, List.length_append, List.length_append, ih]
    congr 1
    exact ChunkedOutputStream.length_translated _ _

theorem sentTexts_eq_iff (fill : ℕ) (finish : OutputEnd) (calls : List OutputCall) :
    (sentTexts fill finish calls).flatten = calls.flatMap OutputCall.wanted ↔
      FlagsAgree fill finish calls := by
  induction calls generalizing fill with
  | nil => simp [sentTexts, FlagsAgree]
  | cons c calls ih =>
    rw [sentTexts, FlagsAgree, List.flatMap_cons]
    split_ifs with hfull
    · rw [List.flatten_cons, ← ih]
      exact List.append_right_inj _
    · rw [List.flatten_cons, ← ih, ← ChunkedOutputStream.translated_eq_iff]
      constructor
      · intro h
        apply List.append_inj h
        exact (ChunkedOutputStream.length_translated _ _).trans
          (ChunkedOutputStream.length_translated _ _).symm
      · rintro ⟨htext, hrest⟩
        rw [htext, hrest]
        rfl

theorem perform_ok (hw : writeFully.Succeeds) (h : s.Working) (hsize : s.bufferSize = 1024)
    (hfill : s.fill < 1024) (hfits : ∀ c ∈ calls, c.text.length < 2 ^ 31) (finish : OutputEnd) :
    ∃ s' chunks, (calls.foldlM (fun s c => c.perform writeFully s) s >>= fun s =>
        finish.perform writeFully s) = .ok s' ∧
      s'.sent = s.sent ++ encode (formatX 0) chunks ∧ (∀ c ∈ chunks, c ≠ []) ∧
      chunks.flatten = translated (flushFlag s.fill finish calls) s.buffer ++
        (sentTexts s.fill finish calls).flatten := by
  induction calls generalizing s with
  | nil =>
    refine ⟨s.send (encode (formatX 0) (s.pending finish.translate)), s.pending finish.translate,
      ?_, rfl, ChunkedOutputStream.pending_ne_nil _, ?_⟩
    · rw [List.foldlM_nil, Exec.pure_eq_ok, Exec.ok_bind, OutputEnd.perform_eq]
      exact ChunkedOutputStream.finishChunkedOutput_ok hw h _
    · rw [ChunkedOutputStream.pending_flatten, sentTexts, flushFlag]
      exact (List.append_nil _).symm
  | cons c calls ih =>
    have hc := hfits c List.mem_cons_self
    have hmore : ∀ c ∈ calls, c.text.length < 2 ^ 31 := fun c hc => hfits c (List.mem_cons_of_mem _ hc)
    have hlen := OutputCall.len_of_fits hc
    rw [List.foldlM_cons, OutputCall.perform_eq, hlen, sentTexts, flushFlag]
    rcases ChunkedOutputStream.writeBytes_cases hw h (hsize ▸ hfill) c.text le_rfl c.translate with
      ⟨hneg, -⟩ | ⟨-, hfull, chunks, hne, hchunks, hstep⟩ | ⟨-, hroom, hstep⟩
    · omega
    · rw [Int.toNat_natCast, List.take_length] at hchunks
      rw [Int.toNat_natCast, hsize] at hfull
      obtain ⟨s', more, hrun, hsent, hmorene, hmoretext⟩ :=
        @ih { s.send (chunks.flatMap (chunk (formatX 0))) with buffer := [] } ⟨h.1, h.2⟩ hsize
          (by show 0 < 1024; decide) hmore
      refine ⟨s', chunks ++ more, ?_, ?_, ?_, ?_⟩
      · rw [hstep, Exec.ok_bind]
        exact hrun
      · rw [hsent]
        unfold encode
        rw [List.flatMap_append, List.append_assoc, ← List.append_assoc s.sent]
        rfl
      · exact List.forall_mem_append.mpr ⟨hne, hmorene⟩
      · have hempty (flag : Bool) : translated flag [] = [] := by cases flag <;> rfl
        rw [List.flatten_append, hmoretext, hchunks, if_pos hfull, if_pos hfull, hempty,
          List.flatten_cons, List.nil_append, List.append_assoc]
        rfl
    · rw [Int.toNat_natCast, List.take_length] at hstep
      rw [Int.toNat_natCast, hsize] at hroom
      have hfill' : ({ s with buffer := s.buffer ++ c.text } : ChunkedOutputStream).fill =
          s.fill + c.text.length := List.length_append
      obtain ⟨s', chunks, hrun, hsent, hne, htext⟩ :=
        @ih { s with buffer := s.buffer ++ c.text } ⟨h.1, h.2⟩ hsize (by rw [hfill']; exact hroom) hmore
      refine ⟨s', chunks, ?_, hsent, hne, ?_⟩
      · rw [hstep, Exec.ok_bind]
        exact hrun
      · have happend (flag : Bool) : translated flag (s.buffer ++ c.text) =
            translated flag s.buffer ++ translated flag c.text := by
          cases flag
          · rfl
          · exact Ebcdic.toASCIIUTF8_append _ _
        rw [htext, hfill', if_neg (by omega), if_neg (by omega), List.flatten_cons, happend,
          List.append_assoc]

/-- What is left of a call when its length has been made an `int`. -/
def OutputCall.cut (c : OutputCall) : OutputCall :=
  .writeBytes c.taken c.translate (by
    have hlt : c.len < 2 ^ 31 := by
      cases c with
      | writeBytes data translate fits =>
        show (data.length : ℤ) < 2 ^ 31
        omega
      | writeString string => exact (BitVec.ofNat 32 string.bytes.length).toInt_lt
    unfold taken
    rw [List.length_take]
    omega)

theorem OutputCall.len_le (c : OutputCall) : c.len ≤ c.text.length := by
  by_cases hfits : c.text.length < 2 ^ 31
  · exact (len_of_fits hfits).le
  · exact (len_lt_of_not_fits hfits).le

theorem OutputCall.perform_cut {c : OutputCall} (h : 0 ≤ c.len) (writeFully : WriteFully)
    (s : ChunkedOutputStream) : c.perform writeFully s = c.cut.perform writeFully s := by
  have hle := c.len_le
  have hlength : (c.taken.length : ℤ) = c.len := by
    unfold taken
    rw [List.length_take]
    omega
  rw [perform_eq]
  show _ = s.writeBytes writeFully c.taken c.taken.length c.translate
  rw [hlength]
  unfold ChunkedOutputStream.writeBytes taken
  rw [List.take_take, Nat.min_self]

/-- A text whose length is made negative is no text. -/
theorem perform_fault (hw : writeFully.Succeeds) (h : s.Working) (hsize : s.bufferSize = 1024)
    (hfill : s.fill < 1024) {bad : OutputCall} (hbad : bad ∈ calls) (hneg : bad.len < 0) :
    calls.foldlM (fun s c => c.perform writeFully s) s = .error .undefinedBehaviour := by
  induction calls generalizing s with
  | nil => cases hbad
  | cons c calls ih =>
    rw [List.foldlM_cons, OutputCall.perform_eq]
    have hrest : c.len < 0 ∨ bad ∈ calls := by
      rcases List.mem_cons.mp hbad with rfl | hmem
      · exact Or.inl hneg
      · exact Or.inr hmem
    rcases ChunkedOutputStream.writeBytes_cases hw h (hsize ▸ hfill) c.text c.len_le c.translate with
      ⟨-, hstep⟩ | ⟨hpos, hfull, chunks, -, -, hstep⟩ | ⟨hpos, hroom, hstep⟩
    · rw [hstep]
      rfl
    · rw [hstep, Exec.ok_bind]
      have hempty : 0 < 1024 := by decide
      exact ih (s := { s.send (chunks.flatMap (chunk (formatX 0))) with buffer := [] }) ⟨h.1, h.2⟩
        hsize hempty (hrest.resolve_left (by omega))
    · rw [hstep, Exec.ok_bind]
      have hle := c.len_le
      have hroom' : ({ s with buffer := s.buffer ++ c.text.take c.len.toNat } :
          ChunkedOutputStream).fill < 1024 := by
        unfold ChunkedOutputStream.fill at hroom ⊢
        rw [List.length_append, List.length_take]
        omega
      exact ih (s := { s with buffer := s.buffer ++ c.text.take c.len.toNat }) ⟨h.1, h.2⟩ hsize
        hroom' (hrest.resolve_left (by omega))

/-- What the fresh stream sends. -/
theorem respond_ok (hw : writeFully.Succeeds) (hfits : ∀ c ∈ calls, c.text.length < 2 ^ 31)
    (finish : OutputEnd) : ∃ s', respond writeFully false calls finish = .ok s' ∧
      ChunkedBody.decode s'.sent = some (sentTexts 0 finish calls).flatten := by
  have hfill : (ChunkedOutputStream.makeChunkedOutputStreamInternal false).fill < 1024 := by decide
  obtain ⟨s', chunks, hrun, hsent, hne, htext⟩ := perform_ok
    (s := ChunkedOutputStream.makeChunkedOutputStreamInternal false) hw ⟨rfl, rfl⟩ rfl hfill hfits finish
  refine ⟨s', hrun, ?_⟩
  have hempty (flag : Bool) : translated flag [] = [] := by cases flag <;> rfl
  have htext' : chunks.flatten = (sentTexts 0 finish calls).flatten :=
    htext.trans (by
      show translated _ [] ++ _ = _
      rw [hempty]
      rfl)
  have hsent' : s'.sent = encode (formatX 0) chunks := hsent
  rw [hsent', ChunkedBody.decode_encode CLibrary.formatX_isNumeral hne, htext']

/-- In a subtask nothing can be sent. -/
structure Detached (s : ChunkedOutputStream) : Prop where
  subtask : s.runningInSubtask = true
  noError : s.isErrorState = false

theorem Detached.header (h : Detached s) (size : ℕ) :
    s.writeTransferChunkHeader writeFully size = .error .undefinedBehaviour := by
  unfold ChunkedOutputStream.writeTransferChunkHeader ChunkedOutputStream.chunkWrite
  simp only [h.noError, h.subtask, Bool.false_eq_true, if_false, if_true]
  rfl

theorem Detached.writeFill (h : Detached s) (translate : Bool) :
    s.writeFill writeFully translate = .error .undefinedBehaviour ∨
      s.writeFill writeFully translate = .ok s := by
  unfold ChunkedOutputStream.writeFill
  split_ifs
  · left
    rw [h.header]
    rfl
  · right
    rfl

theorem Detached.perform (h : Detached s) (c : OutputCall) :
    c.perform writeFully s = .error .undefinedBehaviour ∨
      ∃ s', c.perform writeFully s = .ok s' ∧ Detached s' := by
  rw [OutputCall.perform_eq]
  unfold ChunkedOutputStream.writeBytes
  split_ifs
  · left
    rcases h.writeFill c.translate with hfill | hfill
    · rw [hfill]
      rfl
    · rw [hfill, Exec.ok_bind, h.header]
      rfl
  · left
    rw [h.header]
    rfl
  · left
    rfl
  · right
    exact ⟨_, rfl, h.1, h.2⟩

theorem Detached.performEnd (h : Detached s) (finish : OutputEnd) :
    finish.perform writeFully s = .error .undefinedBehaviour := by
  rw [OutputEnd.perform_eq]
  unfold ChunkedOutputStream.finishChunkedOutput
  rcases h.writeFill finish.translate with hfill | hfill
  · rw [hfill]
    rfl
  · rw [hfill, Exec.ok_bind, h.header]
    rfl

theorem Detached.run (h : Detached s) (calls : List OutputCall) (finish : OutputEnd) :
    (calls.foldlM (fun s c => c.perform writeFully s) s >>= fun s => finish.perform writeFully s) =
      .error .undefinedBehaviour := by
  induction calls generalizing s with
  | nil => exact h.performEnd finish
  | cons c calls ih =>
    rw [List.foldlM_cons]
    rcases h.perform c with hstep | ⟨s', hstep, h'⟩
    · rw [hstep]
      rfl
    · rw [hstep, Exec.ok_bind]
      exact ih h'

theorem decodesToWritten_of_canDecode (hw : writeFully.Succeeds) {runningInSubtask : Bool}
    (h : CanDecode runningInSubtask calls finish) :
    DecodesToWritten writeFully runningInSubtask calls finish := by
  obtain ⟨s', hrun, hdecode⟩ := respond_ok hw h.lengths finish
  have hflags := (sentTexts_eq_iff 0 finish calls).mpr h.flags
  refine ⟨s', ?_, ?_⟩
  · rw [h.mainTask]
    exact hrun
  · rw [hdecode, hflags]

theorem length_flatMap_taken_lt (h : ∃ c ∈ calls, c.taken.length < c.text.length) :
    (calls.flatMap OutputCall.taken).length < (calls.flatMap OutputCall.text).length := by
  have hle (more : List OutputCall) :
      (more.flatMap OutputCall.taken).length ≤ (more.flatMap OutputCall.text).length := by
    induction more with
    | nil => rfl
    | cons c more ih =>
      rw [List.flatMap_cons, List.flatMap_cons, List.length_append, List.length_append]
      have hc : c.taken.length ≤ c.text.length := List.length_take_le' _ _
      omega
  obtain ⟨c, hmem, hlt⟩ := h
  obtain ⟨before, after, rfl⟩ := List.append_of_mem hmem
  have hbefore := hle before
  have hafter := hle after
  simp only [List.flatMap_append, List.flatMap_cons, List.length_append]
  omega

/-- A text that is too long is cut, or none at all. -/
theorem lengths_of_decodesToWritten (hw : writeFully.Succeeds)
    (h : DecodesToWritten writeFully false calls finish) : ∀ c ∈ calls, c.text.length < 2 ^ 31 := by
  obtain ⟨s', hrun, hdecode⟩ := h
  have hpos : ∀ c ∈ calls, 0 ≤ c.len := by
    intro c hc
    by_contra hneg
    have hfill : (ChunkedOutputStream.makeChunkedOutputStreamInternal false).fill < 1024 := by decide
    have hfault := perform_fault hw ⟨rfl, rfl⟩ rfl hfill hc (by omega)
    unfold respond at hrun
    rw [hfault] at hrun
    cases hrun
  have hcut : respond writeFully false calls finish =
      respond writeFully false (calls.map OutputCall.cut) finish := by
    unfold respond
    rw [List.foldlM_map]
    congr 1
    generalize ChunkedOutputStream.makeChunkedOutputStreamInternal false = s
    clear hrun hdecode
    induction calls generalizing s with
    | nil => rfl
    | cons c calls ih =>
      rw [List.foldlM_cons, List.foldlM_cons, OutputCall.perform_cut (hpos c List.mem_cons_self)]
      congr 1
      funext s₁
      exact ih (fun c hc => hpos c (List.mem_cons_of_mem _ hc)) s₁
  have hfits : ∀ c ∈ calls.map OutputCall.cut, c.text.length < 2 ^ 31 := by
    intro c hc
    obtain ⟨c, -, rfl⟩ := List.mem_map.mp hc
    cases hcut : c.cut with
    | writeBytes data translate fits => exact fits
    | writeString string =>
      unfold OutputCall.cut at hcut
      cases hcut
  obtain ⟨s₁, hrun₁, hdecode₁⟩ := respond_ok hw hfits finish
  rw [hcut, hrun₁] at hrun
  rw [← Except.ok.inj hrun, hdecode₁] at hdecode
  have hlength := congrArg List.length (Option.some.inj hdecode)
  rw [length_sentTexts, length_wanted, List.flatMap_map] at hlength
  have htaken : (calls.flatMap fun c => c.cut.text) = calls.flatMap OutputCall.taken := rfl
  rw [htaken] at hlength
  intro c hc
  by_contra hlong
  have hlt := OutputCall.len_lt_of_not_fits hlong
  have hshort := length_flatMap_taken_lt ⟨c, hc, by
    unfold OutputCall.taken
    rw [List.length_take]
    omega⟩
  omega

theorem canDecode_of_decodesToWritten (hw : writeFully.Succeeds) {runningInSubtask : Bool}
    (h : DecodesToWritten writeFully runningInSubtask calls finish) :
    CanDecode runningInSubtask calls finish := by
  have hmain : runningInSubtask = false := by
    by_contra hsubtask
    obtain ⟨s', hrun, -⟩ := h
    have hdetached : Detached
        (ChunkedOutputStream.makeChunkedOutputStreamInternal runningInSubtask) :=
      ⟨Bool.eq_true_of_not_eq_false hsubtask, rfl⟩
    unfold respond at hrun
    rw [hdetached.run] at hrun
    cases hrun
  subst hmain
  have hlengths := lengths_of_decodesToWritten hw h
  constructor
  · rfl
  · exact hlengths
  · obtain ⟨s', hrun, hdecode⟩ := h
    obtain ⟨s₁, hrun₁, hdecode₁⟩ := respond_ok hw hlengths finish
    rw [hrun₁] at hrun
    rw [← Except.ok.inj hrun, hdecode₁] at hdecode
    exact (sentTexts_eq_iff 0 finish calls).mp (Option.some.inj hdecode)

end Runs

/-- A response decodes to what was written iff no text that waits in the buffer is translated against
its own flag. -/
theorem chunked_output_decodes_iff {writeFully : WriteFully} (hw : writeFully.Succeeds)
    (runningInSubtask : Bool) (calls : List OutputCall) (finish : OutputEnd) :
    DecodesToWritten writeFully runningInSubtask calls finish ↔
      CanDecode runningInSubtask calls finish := by
  constructor
  · exact canDecode_of_decodesToWritten hw
  · exact decodesToWritten_of_canDecode hw

theorem chunked_output_decodes_iff_letter :
    DecodesToWritten (fun sent data => (sent ++ data, true)) false
        [.writeBytes [0xC1] true (by decide)] (.finishResponse false) ↔
      CanDecode false [.writeBytes [0xC1] true (by decide)] (.finishResponse false) :=
  chunked_output_decodes_iff (fun _ _ => rfl) false _ (.finishResponse false)

/-- The letter `A` of a text that is not to be translated, in a response that is not JSON. -/
theorem buffered_text_is_translated :
    ¬ ∀ writeFully : WriteFully, writeFully.Succeeds → ∀ runningInSubtask calls finish,
      DecodesToWritten writeFully runningInSubtask calls finish := by
  intro hall
  have hw : WriteFully.Succeeds fun sent data => (sent ++ data, true) := fun _ _ => rfl
  have hdecodes := hall _ hw false [.writeBytes [0xC1] false (by decide)] (.finishResponse false)
  have hflags := (canDecode_of_decodesToWritten hw hdecodes).flags
  revert hflags
  unfold FlagsAgree FlagsAgree
  decide

end Http
end ZoweCommon
