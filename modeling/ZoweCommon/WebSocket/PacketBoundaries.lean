import Mathlib.Data.Nat.Log
import ZoweCommon.WebSocket.FrameReading

/-! Frames that arrive in pieces. -/
namespace ZoweCommon
namespace WebSocket

namespace BigBuffer

/-- The sizes that a buffer written byte by byte can have. -/
def Doubled (b : BigBuffer) : Prop :=
  ∃ j, b.size = 256 * 2 ^ j ∧ b.data.length ≤ b.size ∧ (j = 0 ∨ b.size < 2 * b.data.length)

theorem doubled_fresh : (makeBigBuffer 256).Doubled := ⟨0, rfl, Nat.zero_le _, Or.inl rfl⟩

theorem Doubled.write {b : BigBuffer} (h : b.Doubled) (hlt : b.data.length < 2 ^ 30) (x : Byte) :
    ∃ b', writeByteToBigBuffer b x = .ok b' ∧ b'.Doubled ∧ b'.data = b.data ++ [x] := by
  obtain ⟨j, hsize, hle, hhalf⟩ := h
  have hpos : 0 < 2 ^ j := Nat.two_pow_pos j
  by_cases hroom : b.size < b.data.length + 1
  · refine ⟨⟨b.data ++ [x], b.size * 2⟩, ?_, ⟨j + 1, ?_, ?_, ?_⟩, rfl⟩
    · unfold writeByteToBigBuffer writeToBigBuffer INT_MAX
      simp only [List.length_singleton, if_pos hroom]
      rw [if_pos (by omega)]
      rfl
    · simp only [hsize, Nat.pow_succ, Nat.mul_assoc]
    · simp only [List.length_append, List.length_singleton]
      omega
    · right
      simp only [List.length_append, List.length_singleton]
      omega
  · refine ⟨⟨b.data ++ [x], b.size⟩, ?_, ⟨j, hsize, ?_, ?_⟩, rfl⟩
    · have hmax : b.size ≤ 2 ^ 31 - 1 := by
        rcases hhalf with hzero | hhalf
        · rw [hsize, hzero]
          decide
        · omega
      unfold writeByteToBigBuffer writeToBigBuffer INT_MAX
      simp only [List.length_singleton, if_neg hroom]
      rw [if_pos (by omega)]
      rfl
    · simp only [List.length_append, List.length_singleton]
      omega
    · simp only [List.length_append, List.length_singleton]
      omega

/-- The size would be no `int` any more. -/
theorem Doubled.write_fault {b : BigBuffer} (h : b.Doubled) (hfull : b.data.length = 2 ^ 30)
    (x : Byte) : writeByteToBigBuffer b x = .error .undefinedBehaviour := by
  obtain ⟨j, hsize, hle, hhalf⟩ := h
  have hj : 22 ≤ j := by
    by_contra hlt
    have hpow : 2 ^ j ≤ 2 ^ 21 := Nat.pow_le_pow_right (by decide) (by omega)
    omega
  have hbig : 2 ^ 22 ≤ 2 ^ j := Nat.pow_le_pow_right (by decide) hj
  unfold writeByteToBigBuffer writeToBigBuffer INT_MAX
  simp only [List.length_singleton, hfull]
  by_cases hroom : b.size < 2 ^ 30 + 1
  · rw [if_pos hroom, if_neg (by omega)]
    rfl
  · have hj' : 23 ≤ j := by
      by_contra hlt
      have hpow : 2 ^ j ≤ 2 ^ 22 := Nat.pow_le_pow_right (by decide) (by omega)
      omega
    have hbig' : 2 ^ 23 ≤ 2 ^ j := Nat.pow_le_pow_right (by decide) hj'
    rw [if_neg hroom, if_neg (by omega)]
    rfl

theorem Doubled.writes {b : BigBuffer} (h : b.Doubled) {bytes : List Byte}
    (hle : b.data.length + bytes.length ≤ 2 ^ 30) :
    ∃ b', bytes.foldlM writeByteToBigBuffer b = .ok b' ∧ b'.Doubled ∧ b'.data = b.data ++ bytes := by
  induction bytes generalizing b with
  | nil => exact ⟨b, rfl, h, (List.append_nil _).symm⟩
  | cons x bytes ih =>
    rw [List.length_cons] at hle
    obtain ⟨b₁, hwrite, h₁, hdata₁⟩ := h.write (by omega) x
    obtain ⟨b₂, hwrites, h₂, hdata₂⟩ := ih h₁ (by rw [hdata₁, List.length_append, List.length_singleton]; omega)
    refine ⟨b₂, ?_, h₂, by rw [hdata₂, hdata₁, List.append_assoc]; rfl⟩
    rw [List.foldlM_cons, hwrite, Exec.ok_bind, hwrites]

theorem Doubled.writes_fault {b : BigBuffer} (h : b.Doubled) {bytes : List Byte}
    (hle : b.data.length ≤ 2 ^ 30) (hlt : 2 ^ 30 < b.data.length + bytes.length) :
    bytes.foldlM writeByteToBigBuffer b = .error .undefinedBehaviour := by
  induction bytes generalizing b with
  | nil =>
    rw [List.length_nil] at hlt
    omega
  | cons x bytes ih =>
    rw [List.foldlM_cons]
    rcases hle.lt_or_eq with hless | hfull
    · obtain ⟨b₁, hwrite, h₁, hdata₁⟩ := h.write hless x
      have hlen : b₁.data.length = b.data.length + 1 := by
        rw [hdata₁, List.length_append, List.length_singleton]
      rw [List.length_cons] at hlt
      rw [hwrite, Exec.ok_bind]
      exact ih h₁ (by omega) (by omega)
    · rw [h.write_fault hfull]
      rfl

end BigBuffer

namespace Frame

/-- Payloads of at most 256 bytes, or masked ones that have a length as an `int`. -/
structure WellFormed (f : Frame) : Prop where
  small : f.payload.length < 2 ^ 31
  unmasked : f.mask = none → f.payload.length ≤ 256

/-- Its payload never makes the size of the buffer overflow. -/
def Fits (f : Frame) : Prop := f.payload.length ≤ 2 ^ 30

/-- What the payload stream is after so many bytes. -/
def Written (f : Frame) (n : ℕ) (stream : BigBuffer) : Prop :=
  stream.data = f.payload.take n ∧ if f.mask.isSome then stream.Doubled else stream.size = 256

variable {f : Frame} {n : ℕ} {stream : BigBuffer}

theorem written_fresh (f : Frame) : f.Written 0 (makeBigBuffer 256) := by
  refine ⟨rfl, ?_⟩
  split
  · exact BigBuffer.doubled_fresh
  · rfl

theorem writePiece_ok (left : List Byte) (hf : f.WellFormed) (h : f.Written n stream) (hn : n ≤ f.payload.length)
    (hfits : n + (f.piece n left).length ≤ 2 ^ 30) :
    ∃ stream', f.writePiece stream (f.piece n left) = .ok stream' ∧
      f.Written (n + (f.piece n left).length) stream' := by
  obtain ⟨hdata, hsize⟩ := h
  have hlen := f.piece_length n left
  have hdlen : stream.data.length = n := by rw [hdata, List.length_take, Nat.min_eq_left hn]
  have happ := f.take_append_piece n left
  unfold writePiece
  cases hmask : f.mask with
  | none =>
    have hshort := hf.unmasked hmask
    rw [hmask] at hsize
    simp only [Option.isSome_none, Bool.false_eq_true, if_false] at hsize ⊢
    refine ⟨⟨stream.data ++ f.piece n left, 256⟩, ?_, ?_, ?_⟩
    · unfold writeToBigBuffer INT_MAX
      simp only [hdlen, hsize]
      rw [if_neg (show ¬ 256 < n + (f.piece n left).length by omega), if_pos (by omega)]
      rfl
    · rw [← happ, hdata]
    · rw [hmask]
      rfl
  | some mask =>
    rw [hmask] at hsize
    simp only [Option.isSome_some, if_true] at hsize ⊢
    obtain ⟨stream', hwrites, hdoubled, hdata'⟩ := hsize.writes
      (show stream.data.length + (f.piece n left).length ≤ 2 ^ 30 by omega)
    refine ⟨stream', hwrites, ?_, ?_⟩
    · rw [hdata', hdata, happ]
    · rw [hmask]
      exact hdoubled

theorem writePiece_fault (left : List Byte) (hf : f.WellFormed) (h : f.Written n stream) (hn : n ≤ f.payload.length)
    (hle : n ≤ 2 ^ 30) (hlt : 2 ^ 30 < n + (f.piece n left).length) :
    f.writePiece stream (f.piece n left) = .error .undefinedBehaviour := by
  obtain ⟨hdata, hsize⟩ := h
  have hlen := f.piece_length n left
  have hdlen : stream.data.length = n := by rw [hdata, List.length_take, Nat.min_eq_left hn]
  unfold writePiece
  cases hmask : f.mask with
  | none =>
    have hshort := hf.unmasked hmask
    omega
  | some mask =>
    rw [hmask] at hsize
    simp only [Option.isSome_some, if_true] at hsize ⊢
    exact hsize.writes_fault (by omega) (by omega)

end Frame

/-- What the peer sends. -/
def wires (frames : List Frame) : List Byte := frames.flatMap Frame.wire

@[simp] theorem wires_nil : wires [] = [] := rfl

@[simp] theorem wires_cons (f : Frame) (frames : List Frame) :
    wires (f :: frames) = f.wire ++ wires frames := List.flatMap_cons

/-- The machine has read so many bytes of the next frame. -/
inductive At (i : Idle) : List Frame → ℕ → WSReadMachine → Prop
  | finished : At i [] 0 i.machine
  | header {f : Frame} {frames : List Frame} {k : ℕ} (hk : k < f.header.length) :
      At i (f :: frames) k (f.inHeader i k)
  | payload {f : Frame} {frames : List Frame} {n : ℕ} {stream : BigBuffer}
      (hn : n < f.payload.length) (hle : n ≤ 2 ^ 30) (hstream : f.Written n stream) :
      At i (f :: frames) (f.header.length + n) (f.inPayload i n stream)

theorem At.start (i : Idle) (frames : List Frame) : At i frames 0 i.machine := by
  cases frames with
  | nil => exact .finished
  | cons f frames =>
    have htwo := f.two_le_header
    have hsame : i.machine = f.inHeader i 0 := rfl
    rw [hsame]
    exact .header (by omega)

theorem At.lt {i : Idle} {f : Frame} {frames : List Frame} {k : ℕ} {m : WSReadMachine}
    (h : At i (f :: frames) k m) : k < f.wire.length := by
  cases h with
  | header hk =>
    rw [Frame.wire_length]
    omega
  | payload hn hle hstream =>
    rw [Frame.wire_length]
    omega

/-- What was kept of a message is not too long to be sent back. -/
def Idle.Small (i : Idle) : Prop :=
  ∀ message ∈ i.currentMessage, ∀ frame ∈ message.frames, frame.data.length ≤ 2 ^ 30

theorem Idle.Small.message {i : Idle} (h : i.Small) {f : Frame} (hf : f.Fits) :
    ∀ frame ∈ (f.message i).frames, frame.data.length ≤ 2 ^ 30 := by
  intro frame hframe
  unfold Frame.message addWSFrame at hframe
  rcases List.mem_append.mp hframe with hold | hnew
  · cases hmessage : i.currentMessage with
    | none =>
      rw [hmessage] at hold
      exact absurd hold List.not_mem_nil
    | some message =>
      rw [hmessage] at hold
      exact h message hmessage frame hold
  · rw [List.mem_singleton.mp hnew]
    exact hf

theorem Idle.Small.next {i : Idle} (h : i.Small) {f : Frame} (hf : f.Fits) : (f.next i).Small := by
  intro message hmessage
  unfold Frame.next at hmessage
  cases hfin : f.fin with
  | true =>
    rw [hfin] at hmessage
    cases hmessage
  | false =>
    rw [hfin] at hmessage
    rw [← Option.some.inj hmessage]
    exact h.message hf

section Rounds

variable {f : Frame} {frames : List Frame} {i : Idle} {m : WSReadMachine}
  {data left rest : List Byte} {o k : ℕ}

/-- A round of the loop in which the header is, or becomes, whole: what is left for the payload. -/
theorem At.round (hat : At i (f :: frames) k m) (hf : f.WellFormed) (h : Left data o left)
    (hleft : left <+: f.wire.drop k ++ rest) (hne : left ≠ [])
    (hfull : f.header.length ≤ k + left.length) :
    ∃ n stream o' left', f.Written n stream ∧ n ≤ f.payload.length ∧ n ≤ 2 ^ 30 ∧
      Left data o' left' ∧ left' <+: f.wire.drop (f.header.length + n) ++ rest ∧
      f.header.length + n + left'.length = k + left.length ∧
      o' + left'.length = o + left.length ∧
      ∀ fuel s shouldClose ready, advanceLoop data (fuel + 1) ⟨m, s, o, shouldClose, ready⟩ = (do
        let a ← Advance.payload ⟨f.inPayload i n stream, s, o',
          if k < 2 then f.closeBit else shouldClose, ready⟩ data
        advanceLoop data fuel a) := by
  have hsmall := hf.small
  cases hat with
  | header hk =>
    have hstarts := Frame.drop_prefix hleft (show f.header.length - k ≤ left.length by omega) hk.le
      (by rw [Frame.wire_length]; omega)
    refine ⟨0, makeBigBuffer 256, o + (f.header.length - k), left.drop (f.header.length - k),
      f.written_fresh, Nat.zero_le _, Nat.zero_le _, h.advance (by omega), hstarts, ?_, ?_, ?_⟩
    · rw [List.length_drop]
      omega
    · rw [List.length_drop]
      omega
    · intro fuel s shouldClose ready
      exact Frame.loop_header_full s shouldClose ready (by omega) h hleft hk hfull fuel
  | @payload _ _ n stream hn hle hstream =>
    have htwo := f.two_le_header
    refine ⟨n, stream, o, left, hstream, hn.le, hle, h, hleft, rfl, rfl, ?_⟩
    intro fuel s shouldClose ready
    rw [if_neg (by omega)]
    exact Frame.loop_payload s shouldClose ready h hne n stream fuel

/-- The frame is completed in this round, and the loop goes on. -/
theorem At.whole (hat : At i (f :: frames) k m) (hf : f.WellFormed) (hfits : f.Fits)
    (hi : i.Small) (h : Left data o left) (hleft : left <+: f.wire.drop k ++ rest)
    (hall : f.wire.length ≤ k + left.length) (fuel : ℕ) (s : WSSession) (shouldClose ready : Bool) :
    ∃ s', advanceLoop data (fuel + 1) ⟨m, s, o, shouldClose, ready⟩ =
        advanceLoop data fuel ⟨(f.next i).machine, s', (o + (f.wire.length - k) : ℕ),
          if k < 2 then f.closeBit else shouldClose, true⟩ ∧
      s'.closeRequested =
        (s.closeRequested || (f.fin && if k < 2 then f.closeBit else shouldClose)) ∧
      s'.replies = s.replies ++
        if f.fin && (if k < 2 then f.closeBit else shouldClose) then [f.opcodeAndFlags] else [] := by
  have hlt := hat.lt
  rw [Frame.wire_length] at hall hlt ⊢
  have hne : left ≠ [] := by
    intro hnil
    rw [hnil, List.length_nil] at hall
    omega
  unfold Frame.Fits at hfits
  obtain ⟨n, stream, o', left', hstream, hn, -, hl', hleft', hk', ho', hround⟩ :=
    hat.round hf h hleft hne (by omega)
  have hplen := f.piece_length n left'
  obtain ⟨stream', hwrite, hdata, -⟩ := Frame.writePiece_ok left' hf hstream hn (by omega)
  have hcount : n + (f.piece n left').length = f.payload.length := by omega
  rw [hcount, List.take_length] at hdata
  obtain ⟨s', hcomplete, hrequested, hreplies⟩ := f.complete_eq i s
    (if k < 2 then f.closeBit else shouldClose) (hi.message hfits)
  refine ⟨s', ?_, hrequested, hreplies⟩
  rw [hround, Frame.payload_eq hl' hleft' stream hn hf.small, hwrite]
  simp only [Exec.ok_bind, if_pos hcount, Frame.completeFrame_eq hdata, hcomplete, Exec.pure_eq_ok]
  have hoff : o' + (f.piece n left').length = o + (f.header.length + f.payload.length - k) := by omega
  rw [← hoff, Int.natCast_add]

/-- The data end inside the frame. -/
theorem At.part (hat : At i (f :: frames) k m) (hf : f.WellFormed)
    (hfits : k + left.length ≤ f.header.length + 2 ^ 30) (h : Left data o left)
    (hleft : left <+: f.wire.drop k ++ rest) (hne : left ≠ [])
    (hpart : k + left.length < f.wire.length) (fuel : ℕ) (s : WSSession) (shouldClose ready : Bool) :
    ∃ m', At i (f :: frames) (k + left.length) m' ∧
      advanceLoop data (fuel + 2) ⟨m, s, o, shouldClose, ready⟩ =
        .ok (if k + left.length < f.header.length then false else ready, m', s) := by
  rw [Frame.wire_length] at hpart
  by_cases hheader : k + left.length < f.header.length
  · cases hat with
    | header hk =>
      refine ⟨f.inHeader i (k + left.length), .header hheader, ?_⟩
      rw [Frame.loop_header_short s shouldClose ready h hleft hne hheader, if_pos hheader]
    | payload hn hle hstream => omega
  · obtain ⟨n, stream, o', left', hstream, hn, -, hl', hleft', hk', ho', hround⟩ :=
      hat.round hf h hleft hne (by omega)
    have hplen := f.piece_length n left'
    obtain ⟨stream', hwrite, hstream'⟩ := Frame.writePiece_ok left' hf hstream hn (by omega)
    have hcount : (f.piece n left').length = left'.length := by omega
    rw [hcount] at hstream'
    have hat' : At i (f :: frames) (f.header.length + (n + left'.length))
        (f.inPayload i (n + left'.length) stream') := .payload (by omega) (by omega) hstream'
    rw [show f.header.length + (n + left'.length) = k + left.length by omega] at hat'
    refine ⟨_, hat', ?_⟩
    have hend : ¬ ((o' + left'.length : ℕ) : ℤ) < data.length := by
      have hlen := hl'.length
      have hinside := hl'.inside
      omega
    rw [hround, Frame.payload_eq hl' hleft' stream hn hf.small, hwrite]
    simp only [Exec.ok_bind, hcount, if_neg (show ¬ n + left'.length = f.payload.length by omega),
      Exec.pure_eq_ok, if_neg hheader]
    rw [advanceLoop, if_neg (by rw [Int.natCast_add] at hend; exact hend)]
    rfl

theorem At.fault (hat : At i (f :: frames) k m) (hf : f.WellFormed) (hlong : ¬ f.Fits)
    (hfits : f.header.length + 2 ^ 30 < k + left.length) (h : Left data o left)
    (hleft : left <+: f.wire.drop k ++ rest) (hne : left ≠ []) (fuel : ℕ) (s : WSSession)
    (shouldClose ready : Bool) :
    advanceLoop data (fuel + 1) ⟨m, s, o, shouldClose, ready⟩ = .error .undefinedBehaviour := by
  unfold Frame.Fits at hlong
  obtain ⟨n, stream, o', left', hstream, hn, hle, hl', hleft', hk', ho', hround⟩ :=
    hat.round hf h hleft hne (by omega)
  have hplen := f.piece_length n left'
  have hwrite := Frame.writePiece_fault left' hf hstream hn hle (by omega)
  rw [hround, Frame.payload_eq hl' hleft' stream hn hf.small, hwrite]
  rfl

end Rounds

/-- The first bytes of the frames that are answered when they are complete: of the first one, it is
said whether the beginning of its header was read in the same call. -/
def answered (first : Bool) : List Frame → List Byte
  | [] => []
  | f :: frames =>
    (if f.fin && (first && f.closeBit) then [f.opcodeAndFlags] else []) ++ answered true frames

def insideHeader : List Frame → ℕ → Bool
  | [], _ => false
  | f :: _, k => 0 < k && k < f.header.length

theorem insideHeader_cons (f : Frame) (frames : List Frame) (k : ℕ) :
    insideHeader (f :: frames) k = decide (0 < k ∧ k < f.header.length) :=
  (Bool.decide_and (0 < k) (k < f.header.length)).symm

theorem advanceLoop_end {data : List Byte} {o : ℕ} (h : Left data o []) {fuel : ℕ} (hfuel : 0 < fuel)
    (m : WSReadMachine) (s : WSSession) (shouldClose ready : Bool) :
    advanceLoop data fuel ⟨m, s, o, shouldClose, ready⟩ = .ok (ready, m, s) := by
  obtain ⟨fuel, rfl⟩ : ∃ n, fuel = n + 1 := ⟨fuel - 1, by omega⟩
  have hlen := h.length
  rw [List.length_nil] at hlen
  have hend : ¬ (o : ℤ) < data.length := by omega
  rw [advanceLoop, if_neg hend]
  rfl

/-- How a call goes on from a place between two frames or inside one. -/
theorem advanceLoop_frames {data left later : List Byte} {o : ℕ} {rest : List Frame} {k : ℕ}
    {i : Idle} {m : WSReadMachine} (hat : At i rest k m) (hf : ∀ f ∈ rest, f.WellFormed)
    (hi : i.Small) (h : Left data o left) (hwire : (wires rest).drop k = left ++ later) (fuel : ℕ)
    (hfuel : left.length < fuel) (s : WSSession) (shouldClose ready : Bool)
    (hbegin : k < 2 ∨ shouldClose = false) :
    ((∃ f ∈ rest, ¬ f.Fits) ∧
      advanceLoop data fuel ⟨m, s, o, shouldClose, ready⟩ = .error .undefinedBehaviour) ∨
    ∃ c rest' k' m' s', rest = c ++ rest' ∧ (∀ f ∈ c, f.Fits) ∧ (wires rest').drop k' = later ∧
      (wires c).length + k' = k + left.length ∧
      (c.foldl (fun i f => f.next i) i).Small ∧
      At (c.foldl (fun i f => f.next i) i) rest' k' m' ∧
      advanceLoop data fuel ⟨m, s, o, shouldClose, ready⟩ =
        .ok (if left = [] then ready else !insideHeader rest' k' && (ready || !c.isEmpty), m', s') ∧
      s'.replies = s.replies ++ answered (k < 2) c ∧
      s'.closeRequested = (s.closeRequested || !(answered (k < 2) c).isEmpty) := by
  by_cases hnil : left = []
  · right
    subst hnil
    rw [List.nil_append] at hwire
    refine ⟨[], rest, k, m, s, rfl, by simp, hwire, by simp, hi, hat, ?_, ?_, ?_⟩
    · rw [advanceLoop_end h (by omega), if_pos rfl]
    · simp [answered]
    · simp [answered]
  have hpos : 0 < left.length := List.length_pos_iff.mpr hnil
  induction rest generalizing left o k i m fuel s shouldClose ready with
  | nil =>
    rw [wires_nil, List.drop_nil] at hwire
    exact absurd (List.append_eq_nil_iff.mp hwire.symm).1 hnil
  | cons f rest ih =>
    have hlt := hat.lt
    have hff := hf f List.mem_cons_self
    have hlen := h.length
    rw [wires_cons, List.drop_append_of_le_length hlt.le] at hwire
    have hstarts : left <+: f.wire.drop k ++ wires rest := ⟨later, hwire.symm⟩
    have hclose : (if k < 2 then f.closeBit else shouldClose) = (decide (k < 2) && f.closeBit) := by
      by_cases hk : k < 2
      · simp [hk]
      · rw [if_neg hk, hbegin.resolve_left hk]
        simp [hk]
    by_cases hall : f.wire.length ≤ k + left.length
    · by_cases hfits : f.Fits
      · obtain ⟨fuel, rfl⟩ : ∃ n, fuel = n + 1 := ⟨fuel - 1, by omega⟩
        obtain ⟨s₁, hrun, hrequested, hreplies⟩ := hat.whole hff hfits hi h hstarts hall fuel s
          shouldClose ready
        rw [hclose] at hrequested hreplies hrun
        have hleft₁ := h.advance (show f.wire.length - k ≤ left.length by omega)
        have hwire₁ : (wires rest).drop 0 = left.drop (f.wire.length - k) ++ later := by
          have hdrop := congrArg (List.drop (f.wire.length - k)) hwire
          rw [List.drop_append, List.drop_of_length_le List.length_drop.le,
            List.length_drop, Nat.sub_self, List.nil_append,
            List.drop_append_of_le_length (by omega)] at hdrop
          exact hdrop
        have hfirst : (if f.fin && (decide (k < 2) && f.closeBit) then [f.opcodeAndFlags] else []) ++
            [] = answered (decide (k < 2)) [f] := rfl
        by_cases hdone : left.drop (f.wire.length - k) = []
        · right
          have hlen₁ : left.length = f.wire.length - k := by
            have hle := List.drop_eq_nil_iff.mp hdone
            omega
          rw [hdone] at hleft₁ hwire₁
          refine ⟨[f], rest, 0, (f.next i).machine, s₁, rfl, by simpa using hfits, ?_, ?_,
            hi.next hfits, .start (f.next i) rest, ?_, ?_, ?_⟩
          · rw [hwire₁, List.nil_append]
          · rw [wires_cons, wires_nil, List.append_nil]
            omega
          · rw [hrun, advanceLoop_end hleft₁ (by omega), if_neg hnil]
            cases rest <;> simp [insideHeader]
          · rw [hreplies, ← hfirst, List.append_nil]
          · rw [hrequested, ← hfirst, List.append_nil]
            cases f.fin && (decide (k < 2) && f.closeBit) <;> simp
        · have ih₁ := ih (At.start (f.next i) rest) (fun g hg => hf g (List.mem_cons_of_mem f hg))
            (hi.next hfits) hleft₁ hwire₁ fuel (by rw [List.length_drop]; omega) s₁
            (decide (k < 2) && f.closeBit) true (Or.inl (by decide)) hdone
            (List.length_pos_iff.mpr hdone)
          rcases ih₁ with ⟨⟨g, hg, hlong⟩, hfault⟩ |
            ⟨c, rest', k', m', s', hrest, hfit, hlater, hcount, hsmall', hat', hloop, hrep, hreq⟩
          · left
            refine ⟨⟨g, List.mem_cons_of_mem f hg, hlong⟩, ?_⟩
            rw [hrun, hfault]
          · right
            refine ⟨f :: c, rest', k', m', s', by rw [hrest]; rfl, ?_, hlater, ?_, hsmall', hat', ?_,
              ?_, ?_⟩
            · exact List.forall_mem_cons.mpr ⟨hfits, hfit⟩
            · rw [List.length_drop] at hcount
              rw [wires_cons, List.length_append]
              omega
            · rw [hrun, hloop, if_neg hdone, if_neg hnil]
              simp
            · rw [hrep, hreplies, List.append_assoc]
              rfl
            · rw [hreq, hrequested, answered]
              cases f.fin && (decide (k < 2) && f.closeBit) <;> simp
      · left
        refine ⟨⟨f, List.mem_cons_self, hfits⟩, ?_⟩
        have hlong : f.header.length + 2 ^ 30 < k + left.length := by
          unfold Frame.Fits at hfits
          rw [Frame.wire_length] at hall
          omega
        obtain ⟨fuel, rfl⟩ : ∃ n, fuel = n + 1 := ⟨fuel - 1, by omega⟩
        exact hat.fault hff hfits hlong h hstarts hnil fuel s shouldClose ready
    · by_cases hfits : k + left.length ≤ f.header.length + 2 ^ 30
      · obtain ⟨fuel, rfl⟩ : ∃ n, fuel = n + 2 := ⟨fuel - 2, by omega⟩
        obtain ⟨m', hat', hrun⟩ := hat.part hff hfits h hstarts hnil (by omega) fuel s shouldClose ready
        right
        refine ⟨[], f :: rest, k + left.length, m', s, rfl, by simp, ?_, by simp, hi, hat', ?_, ?_, ?_⟩
        · have hdrop := congrArg (List.drop left.length) hwire
          rw [List.drop_left, List.drop_append_of_le_length (by rw [List.length_drop]; omega),
            List.drop_drop] at hdrop
          rw [wires_cons, List.drop_append_of_le_length (by omega), hdrop]
        · rw [hrun, if_neg hnil]
          congr 2
          unfold insideHeader
          by_cases hheader : k + left.length < f.header.length
          · have hsome : 0 < k + left.length := by omega
            rw [if_pos hheader]
            simp [hheader, hsome]
          · rw [if_neg hheader]
            simp [hheader]
        · simp [answered]
        · simp [answered]
      · left
        have hlong : ¬ f.Fits := by
          unfold Frame.Fits
          rw [Frame.wire_length] at hall
          omega
        obtain ⟨fuel, rfl⟩ : ∃ n, fuel = n + 1 := ⟨fuel - 1, by omega⟩
        exact ⟨⟨f, List.mem_cons_self, hlong⟩,
          hat.fault hff hlong (by omega) h hstarts hnil fuel s shouldClose ready⟩

/-! Whole streams -/

def runReads (fuel : ℕ) : WSReadMachine → WSSession → List (List Byte) →
    Exec (List Bool × WSReadMachine × WSSession)
  | m, s, [] => return ([], m, s)
  | m, s, data :: reads => do
    let (ready, m, s) ← readMachineAdvance fuel m data s
    let (returned, m, s) ← runReads fuel m s reads
    return (ready :: returned, m, s)

/-- Where each read begins and ends. -/
def readSpans : ℕ → List (List Byte) → List (ℕ × ℕ)
  | _, [] => []
  | a, data :: reads => (a, a + data.length) :: readSpans (a + data.length) reads

def frameStarts : ℕ → List Frame → List (ℕ × Frame)
  | _, [] => []
  | p, f :: frames => (p, f) :: frameStarts (p + f.wire.length) frames

theorem frameStarts_append (p : ℕ) (a b : List Frame) :
    frameStarts p (a ++ b) = frameStarts p a ++ frameStarts (p + (wires a).length) b := by
  induction a generalizing p with
  | nil => simp [frameStarts]
  | cons f a ih => simp [frameStarts, ih, Nat.add_assoc]

theorem le_of_mem_readSpans {a : ℕ} {reads : List (List Byte)} {x : ℕ × ℕ}
    (h : x ∈ readSpans a reads) : a ≤ x.1 := by
  induction reads generalizing a with
  | nil => cases h
  | cons data reads ih =>
    rcases List.mem_cons.mp h with rfl | h
    · exact le_rfl
    · exact (Nat.le_add_right a data.length).trans (ih h)

theorem le_of_mem_frameStarts {p : ℕ} {frames : List Frame} {x : ℕ × Frame}
    (h : x ∈ frameStarts p frames) : p ≤ x.1 ∧ x.1 + x.2.wire.length ≤ p + (wires frames).length := by
  induction frames generalizing p with
  | nil => cases h
  | cons f frames ih =>
    rw [wires_cons, List.length_append]
    rcases List.mem_cons.mp h with rfl | h
    · exact ⟨le_rfl, by simp only; omega⟩
    · have hle := ih h
      omega

/-- A read begins inside the frame, after the second byte. -/
def isCut (reads : List (ℕ × ℕ)) (start : ℕ) (f : Frame) : Bool :=
  reads.any fun read => start + 2 ≤ read.1 && read.1 < start + f.wire.length

/-- The first bytes of the frames that are answered. -/
def answers (reads : List (ℕ × ℕ)) (frames : List (ℕ × Frame)) : List Byte :=
  frames.flatMap fun (start, f) =>
    if f.fin && f.closeBit && !isCut reads start f then [f.opcodeAndFlags] else []

def CompletionsReported (reads : List (ℕ × ℕ)) (returned : List Bool)
    (frames : List (ℕ × Frame)) : Prop :=
  ∀ read ∈ reads.zip returned, (∃ frame ∈ frames, read.1.1 < frame.1 + frame.2.wire.length ∧
    frame.1 + frame.2.wire.length ≤ read.1.2) → read.2 = true

/-- No read that begins before a frame ends inside its header. -/
def HeadersUncut (reads : List (ℕ × ℕ)) (frames : List (ℕ × Frame)) : Prop :=
  ∀ read ∈ reads, ∀ frame ∈ frames,
    ¬ (read.1 < frame.1 ∧ frame.1 < read.2 ∧ read.2 < frame.1 + frame.2.header.length)

theorem isCut_cons_of_end {a b start : ℕ} {f : Frame} {reads : List (List Byte)}
    (hend : start + f.wire.length ≤ b) :
    isCut ((a, b) :: readSpans b reads) start f =
      decide (start + 2 ≤ a ∧ a < start + f.wire.length) := by
  have hlater : (readSpans b reads).any
      (fun read => start + 2 ≤ read.1 && read.1 < start + f.wire.length) = false := by
    rw [List.any_eq_false]
    intro y hy
    have hge := le_of_mem_readSpans hy
    simp only [Bool.and_eq_true, decide_eq_true_eq, not_and]
    omega
  unfold isCut
  rw [List.any_cons, hlater, Bool.or_false, ← Bool.decide_and]

theorem isCut_cons_of_before {a b start : ℕ} {f : Frame} {reads : List (ℕ × ℕ)}
    (hbefore : a < start + 2) : isCut ((a, b) :: reads) start f = isCut reads start f := by
  have hnot : decide (start + 2 ≤ a) = false := by
    rw [decide_eq_false_iff_not]
    omega
  unfold isCut
  rw [List.any_cons, hnot, Bool.false_and, Bool.false_or]

theorem answers_cons (reads : List (ℕ × ℕ)) (start : ℕ) (f : Frame) (frames : List (ℕ × Frame)) :
    answers reads ((start, f) :: frames) =
      (if f.fin && f.closeBit && !isCut reads start f then [f.opcodeAndFlags] else []) ++
        answers reads frames := List.flatMap_cons

/-- Frames that begin in the call are all answered as their first bytes say. -/
theorem answers_of_begun {a b p : ℕ} {c : List Frame} {reads : List (List Byte)} (ha : a < p + 2)
    (hend : p + (wires c).length ≤ b) :
    answers ((a, b) :: readSpans b reads) (frameStarts p c) = answered true c := by
  induction c generalizing p with
  | nil => rfl
  | cons f c ih =>
    rw [wires_cons, List.length_append] at hend
    have huncut : isCut ((a, b) :: readSpans b reads) p f = false := by
      rw [isCut_cons_of_end (by omega), decide_eq_false_iff_not]
      omega
    rw [frameStarts, answers_cons, huncut, ih (by omega) (by omega), answered, Bool.not_false,
      Bool.and_true, Bool.true_and]

/-- Of the frames of a call, only the first can have been cut. -/
theorem answers_of_call {k k' p : ℕ} {c : List Frame} {data : List Byte} {reads : List (List Byte)}
    (hcount : (wires c).length + k' = k + data.length) (hbegin : ∀ f ∈ c.head?, k < f.wire.length) :
    answers (readSpans (p + k) (data :: reads)) (frameStarts p c) = answered (k < 2) c := by
  cases c with
  | nil => rfl
  | cons f c =>
    have hlt := hbegin f rfl
    rw [wires_cons, List.length_append] at hcount
    have hcut : isCut ((p + k, p + k + data.length) :: readSpans (p + k + data.length) reads) p f =
        !decide (k < 2) := by
      rw [isCut_cons_of_end (by omega), ← decide_not]
      apply decide_eq_decide.mpr
      omega
    rw [readSpans, frameStarts, answers_cons, hcut, answers_of_begun (by omega) (by omega), answered,
      Bool.not_not, Bool.and_assoc, Bool.and_comm f.closeBit]

theorem answers_after_call {k k' p : ℕ} {c rest' : List Frame} {data : List Byte}
    {reads : List (List Byte)} (hcount : (wires c).length + k' = k + data.length)
    (hbegin : ∀ f ∈ (c ++ rest').head?, k < f.wire.length)
    (hafter : ∀ f ∈ rest'.head?, k' < f.wire.length ∧ reads ≠ []) :
    answers (readSpans (p + k) (data :: reads)) (frameStarts (p + (wires c).length) rest') =
      answers (readSpans (p + (wires c).length + k') reads)
        (frameStarts (p + (wires c).length) rest') := by
  have hnext : p + k + data.length = p + (wires c).length + k' := by omega
  rw [readSpans, hnext]
  unfold answers
  apply List.flatMap_congr
  intro x hx
  obtain ⟨start, f⟩ := x
  have hle := (le_of_mem_frameStarts hx).1
  have hcut : isCut ((p + k, p + (wires c).length + k') ::
      readSpans (p + (wires c).length + k') reads) start f =
        isCut (readSpans (p + (wires c).length + k') reads) start f := by
    by_cases hbefore : p + k < start + 2
    · exact isCut_cons_of_before hbefore
    · -- the frame was begun in an earlier call, and goes on in a later one
      have hnil : c = [] := by
        cases c with
        | nil => rfl
        | cons f₀ c =>
          have hlt := hbegin f₀ rfl
          rw [wires_cons, List.length_append] at hle
          omega
      subst hnil
      cases rest' with
      | nil => cases hx
      | cons f₀ rest' =>
        have hlt := hbegin f₀ rfl
        obtain ⟨hlt', hreads⟩ := hafter f₀ rfl
        rw [wires_nil, List.length_nil] at hx hle hcount ⊢
        rcases List.mem_cons.mp hx with hfirst | hlater
        · obtain ⟨hstart, rfl⟩ := Prod.mk.inj hfirst
          rw [hstart] at hbefore ⊢
          have hcut : isCut (readSpans (p + 0 + k') reads) (p + 0) f = true := by
            cases reads with
            | nil => exact absurd rfl hreads
            | cons data₁ reads =>
              unfold isCut
              rw [readSpans, List.any_cons, Bool.or_eq_true]
              left
              simp only [Bool.and_eq_true, decide_eq_true_eq]
              omega
          rw [hcut]
          unfold isCut at hcut ⊢
          rw [List.any_cons, hcut, Bool.or_true]
        · have hge := (le_of_mem_frameStarts hlater).1
          simp only at hge
          omega
  simp only [hcut]

/-- Whether a call's result is right depends on where it ends. -/
theorem reported_of_call {k k' p : ℕ} {c rest' : List Frame} {data : List Byte}
    (hcount : (wires c).length + k' = k + data.length) (hbegin : ∀ f ∈ c.head?, k < f.wire.length)
    (hafter : ∀ f ∈ rest'.head?, k' < f.wire.length) :
    (∃ frame ∈ frameStarts p (c ++ rest'), p + k < frame.1 + frame.2.wire.length ∧
      frame.1 + frame.2.wire.length ≤ p + k + data.length) ↔ c ≠ [] := by
  constructor
  · rintro ⟨⟨start, f⟩, hmem, hgt, hle⟩ rfl
    rw [List.nil_append] at hmem
    rw [wires_nil, List.length_nil, Nat.zero_add] at hcount
    cases rest' with
    | nil => cases hmem
    | cons f₀ rest' =>
      have hlt := hafter f₀ rfl
      rcases List.mem_cons.mp hmem with hfirst | hlater
      · obtain ⟨hstart, rfl⟩ := Prod.mk.inj hfirst
        simp only at hle
        omega
      · have hge := (le_of_mem_frameStarts hlater).1
        simp only at hge hle
        omega
  · intro hne
    cases c with
    | nil => exact absurd rfl hne
    | cons f c =>
      have hlt := hbegin f rfl
      rw [wires_cons, List.length_append] at hcount
      exact ⟨(p, f), List.mem_cons_self, by simp only; omega, by simp only; omega⟩

theorem uncut_of_call {k k' p : ℕ} {c rest' : List Frame} {data : List Byte}
    (hcount : (wires c).length + k' = k + data.length) (hbegin : ∀ f ∈ c.head?, k < f.wire.length)
    (hafter : ∀ f ∈ rest'.head?, k' < f.wire.length) :
    (∀ frame ∈ frameStarts p (c ++ rest'), ¬ (p + k < frame.1 ∧ frame.1 < p + k + data.length ∧
      p + k + data.length < frame.1 + frame.2.header.length)) ↔
      (c ≠ [] → insideHeader rest' k' = false) := by
  constructor
  · intro hall hne
    cases rest' with
    | nil => rfl
    | cons f rest' =>
      have hmem : (p + (wires c).length, f) ∈ frameStarts p (c ++ f :: rest') := by
        rw [frameStarts_append]
        exact List.mem_append_right _ List.mem_cons_self
      have hnot := hall _ hmem
      have hlt : k < (wires c).length := by
        cases c with
        | nil => exact absurd rfl hne
        | cons f₀ c =>
          have hlt := hbegin f₀ rfl
          rw [wires_cons, List.length_append]
          omega
      rw [insideHeader_cons, decide_eq_false_iff_not]
      simp only at hnot
      omega
  · rintro hclean ⟨start, f⟩ hmem ⟨hbefore, hinside, hheader⟩
    rw [frameStarts_append] at hmem
    simp only at hbefore hinside hheader
    rcases List.mem_append.mp hmem with hin | hout
    · have hle := (le_of_mem_frameStarts hin).2
      simp only [Frame.wire_length] at hle
      omega
    · cases rest' with
      | nil => cases hout
      | cons f₀ rest' =>
        have hlt := hafter f₀ rfl
        rcases List.mem_cons.mp hout with hfirst | hlater
        · obtain ⟨hstart, rfl⟩ := Prod.mk.inj hfirst
          have hne : c ≠ [] := by
            rintro rfl
            rw [wires_nil, List.length_nil] at hstart
            omega
          have hclean := hclean hne
          rw [insideHeader_cons, decide_eq_false_iff_not] at hclean
          omega
        · have hge := (le_of_mem_frameStarts hlater).1
          simp only at hge
          omega

section Passed

variable {reads : List (ℕ × ℕ)} {passed frames : List (ℕ × Frame)} {a : ℕ}
  (hpassed : ∀ x ∈ passed, x.1 + x.2.wire.length ≤ a) (hreads : ∀ read ∈ reads, a ≤ read.1)

include hpassed hreads

theorem completionsReported_passed (returned : List Bool) :
    CompletionsReported reads returned (passed ++ frames) ↔
      CompletionsReported reads returned frames := by
  constructor
  · rintro h read hread ⟨frame, hframe, hspan⟩
    exact h read hread ⟨frame, List.mem_append_right passed hframe, hspan⟩
  · rintro h read hread ⟨frame, hframe, hspan⟩
    rcases List.mem_append.mp hframe with hold | hnew
    · have hle := hpassed frame hold
      have hge := hreads read.1 (List.of_mem_zip hread).1
      omega
    · exact h read hread ⟨frame, hnew, hspan⟩

theorem headersUncut_passed : HeadersUncut reads (passed ++ frames) ↔ HeadersUncut reads frames := by
  constructor
  · intro h read hread frame hframe
    exact h read hread frame (List.mem_append_right passed hframe)
  · intro h read hread frame hframe
    rcases List.mem_append.mp hframe with hold | hnew
    · have hle := hpassed frame hold
      have hge := hreads read hread
      omega
    · exact h read hread frame hnew

end Passed

/-- The step of a run: what one call does to the frames that are left. -/
theorem readMachineAdvance_frames {data later : List Byte} {rest : List Frame} {k : ℕ} {i : Idle}
    {m : WSReadMachine} (hat : At i rest k m) (hf : ∀ f ∈ rest, f.WellFormed) (hi : i.Small)
    (hwire : (wires rest).drop k = data ++ later) (fuel : ℕ) (hfuel : data.length < fuel)
    (s : WSSession) :
    ((∃ f ∈ rest, ¬ f.Fits) ∧ readMachineAdvance fuel m data s = .error .undefinedBehaviour) ∨
    ∃ c rest' k' m' s', rest = c ++ rest' ∧ (∀ f ∈ c, f.Fits) ∧ (wires rest').drop k' = later ∧
      (wires c).length + k' = k + data.length ∧ (c.foldl (fun i f => f.next i) i).Small ∧
      At (c.foldl (fun i f => f.next i) i) rest' k' m' ∧
      readMachineAdvance fuel m data s =
        .ok (!insideHeader rest' k' && !c.isEmpty, m', s') ∧
      s'.replies = s.replies ++ answered (k < 2) c ∧
      s'.closeRequested = (s.closeRequested || !(answered (k < 2) c).isEmpty) := by
  rcases advanceLoop_frames hat hf hi (Left.start data) hwire fuel hfuel s false false
      (Or.inr rfl) with hfault |
    ⟨c, rest', k', m', s', hrest, hfit, hlater, hcount, hsmall, hat', hloop, hrep, hreq⟩
  · exact Or.inl hfault
  · right
    refine ⟨c, rest', k', m', s', hrest, hfit, hlater, hcount, hsmall, hat', ?_, hrep, hreq⟩
    unfold readMachineAdvance
    rw [show ((0 : ℤ)) = ((0 : ℕ) : ℤ) from rfl, hloop]
    by_cases hnil : data = []
    · have hc : c = [] := by
        cases c with
        | nil => rfl
        | cons f c =>
          rw [hrest] at hat
          have hlt := hat.lt
          rw [hnil, wires_cons, List.length_append, List.length_nil] at hcount
          omega
      rw [if_pos hnil, hc]
      simp
    · rw [if_neg hnil, Bool.false_or]

theorem runReads_frames {rest : List Frame} {k p : ℕ} {i : Idle} {m : WSReadMachine}
    {reads : List (List Byte)} (hat : At i rest k m) (hf : ∀ f ∈ rest, f.WellFormed) (hi : i.Small)
    (hwire : (wires rest).drop k = reads.flatten) (fuel : ℕ)
    (hfuel : ∀ data ∈ reads, data.length < fuel) (s : WSSession) :
    ((∃ f ∈ rest, ¬ f.Fits) ∧ runReads fuel m s reads = .error .undefinedBehaviour) ∨
    (∀ f ∈ rest, f.Fits) ∧ ∃ returned m' s', runReads fuel m s reads = .ok (returned, m', s') ∧
      m'.messageQueue = (rest.foldl (fun i f => f.next i) i).messageQueue ∧
      s'.replies = s.replies ++ answers (readSpans (p + k) reads) (frameStarts p rest) ∧
      s'.closeRequested =
        (s.closeRequested || !(answers (readSpans (p + k) reads) (frameStarts p rest)).isEmpty) ∧
      (CompletionsReported (readSpans (p + k) reads) returned (frameStarts p rest) ↔
        HeadersUncut (readSpans (p + k) reads) (frameStarts p rest)) := by
  induction reads generalizing rest k p i m s with
  | nil =>
    right
    cases rest with
    | cons f rest =>
      have hlt := hat.lt
      have hnil := congrArg List.length hwire
      rw [wires_cons, List.drop_append_of_le_length hlt.le, List.length_append, List.length_drop,
        List.flatten_nil, List.length_nil] at hnil
      omega
    | nil =>
      cases hat with
      | finished =>
        refine ⟨by simp, [], i.machine, s, rfl, rfl, ?_, ?_, ?_⟩
        · simp [answers, frameStarts]
        · simp [answers, frameStarts]
        · simp [CompletionsReported, HeadersUncut, readSpans]
  | cons data reads ih =>
    rw [List.flatten_cons] at hwire
    have hbegin : ∀ f ∈ rest.head?, k < f.wire.length := by
      intro f hmem
      cases rest with
      | nil => cases hmem
      | cons f₀ rest =>
        rw [← Option.some.inj hmem]
        exact hat.lt
    rcases readMachineAdvance_frames hat hf hi hwire fuel (hfuel data List.mem_cons_self) s with
      ⟨hlong, hfault⟩ |
      ⟨c, rest', k', m₁, s₁, hrest, hfit, hlater, hcount, hsmall, hat', hcall, hrep, hreq⟩
    · left
      refine ⟨hlong, ?_⟩
      rw [runReads, hfault]
      rfl
    · subst hrest
      have hf' : ∀ f ∈ rest', f.WellFormed := fun f hmem => hf f (List.mem_append_right c hmem)
      have hafter : ∀ f ∈ rest'.head?, k' < f.wire.length ∧ reads ≠ [] := by
        intro f hmem
        cases rest' with
        | nil => cases hmem
        | cons f₀ rest' =>
          rw [← Option.some.inj hmem]
          refine ⟨hat'.lt, ?_⟩
          rintro rfl
          have hlt := hat'.lt
          have hnil := congrArg List.length hlater
          rw [wires_cons, List.drop_append_of_le_length hlt.le, List.length_append, List.length_drop,
            List.flatten_nil, List.length_nil] at hnil
          omega
      have hbeginc : ∀ f ∈ c.head?, k < f.wire.length := by
        intro f hmem
        cases c with
        | nil => cases hmem
        | cons f₀ c => exact hbegin f hmem
      have hnext : p + k + data.length = p + (wires c).length + k' := by omega
      have hanswers : answers (readSpans (p + k) (data :: reads)) (frameStarts p (c ++ rest')) =
          answered (k < 2) c ++ answers (readSpans (p + (wires c).length + k') reads)
            (frameStarts (p + (wires c).length) rest') := by
        rw [frameStarts_append]
        unfold answers
        rw [List.flatMap_append]
        exact congrArg₂ (· ++ ·) (answers_of_call hcount hbeginc)
          (answers_after_call hcount hbegin hafter)
      rcases ih (p := p + (wires c).length) hat' hf' hsmall hlater
          (fun d hd => hfuel d (List.mem_cons_of_mem data hd)) s₁ with ⟨⟨f, hmem, hlong⟩, hfault⟩ |
        ⟨hfit', returned, m₂, s₂, hrun, hqueue, hrep₂, hreq₂, hiff⟩
      · left
        refine ⟨⟨f, List.mem_append_right c hmem, hlong⟩, ?_⟩
        rw [runReads, hcall]
        simp only [Exec.ok_bind, hfault]
        rfl
      · right
        refine ⟨?_, (!insideHeader rest' k' && !c.isEmpty) :: returned, m₂, s₂, ?_, ?_, ?_, ?_, ?_⟩
        · intro f hmem
          rcases List.mem_append.mp hmem with hin | hout
          · exact hfit f hin
          · exact hfit' f hout
        · rw [runReads, hcall]
          simp only [Exec.ok_bind, hrun, Exec.pure_eq_ok]
        · rw [hqueue, List.foldl_append]
        · rw [hrep₂, hrep, hanswers, List.append_assoc]
        · rw [hreq₂, hreq, hanswers]
          cases answered (k < 2) c <;> simp
        · have hpassed : ∀ x ∈ frameStarts p c, x.1 + x.2.wire.length ≤ p + (wires c).length :=
            fun x hx => (le_of_mem_frameStarts hx).2
          have hlater' : ∀ read ∈ readSpans (p + (wires c).length + k') reads,
              p + (wires c).length ≤ read.1 :=
            fun read hread => (Nat.le_add_right _ _).trans (le_of_mem_readSpans hread)
          have hreported := reported_of_call (p := p) hcount hbeginc fun f hmem => (hafter f hmem).1
          have huncut := uncut_of_call (p := p) hcount hbeginc fun f hmem => (hafter f hmem).1
          have htail : CompletionsReported (readSpans (p + k + data.length) reads) returned
                (frameStarts p (c ++ rest')) ↔
              HeadersUncut (readSpans (p + k + data.length) reads) (frameStarts p (c ++ rest')) := by
            rw [hnext, frameStarts_append, completionsReported_passed hpassed hlater',
              headersUncut_passed hpassed hlater', hiff]
          have hhead : ((∃ frame ∈ frameStarts p (c ++ rest'),
                p + k < frame.1 + frame.2.wire.length ∧
                  frame.1 + frame.2.wire.length ≤ p + k + data.length) →
                (!insideHeader rest' k' && !c.isEmpty) = true) ↔
              ∀ frame ∈ frameStarts p (c ++ rest'), ¬ (p + k < frame.1 ∧
                frame.1 < p + k + data.length ∧ p + k + data.length < frame.1 + frame.2.header.length) := by
            rw [hreported, huncut]
            cases c with
            | nil => simp
            | cons f c => simp
          unfold CompletionsReported HeadersUncut at htail ⊢
          rw [readSpans, List.zip_cons_cons, List.forall_mem_cons, List.forall_mem_cons]
          exact and_congr hhead htail

namespace Frame

/-- The last frame of a message that asks for the session to be closed. -/
def finalClose (f : Frame) : Bool := f.fin && f.isClose

theorem closeBit_of_isClose {f : Frame} (h : f.isClose = true) : f.closeBit = true := by
  have hall : ∀ b : Byte, b &&& 0x0F = OPCODE_CONNECTION_CLOSE → b &&& 0x08 ≠ 0 := by decide
  unfold isClose at h
  unfold closeBit
  rw [decide_eq_true_eq] at h ⊢
  exact hall f.opcodeAndFlags h

theorem finalClose_congr {f g : Frame} (h : f.opcodeAndFlags = g.opcodeAndFlags) :
    f.finalClose = g.finalClose := by
  unfold finalClose fin isClose
  rw [h]

end Frame

theorem frameStarts_snd (p : ℕ) (frames : List Frame) : (frameStarts p frames).map Prod.snd = frames := by
  induction frames generalizing p with
  | nil => rfl
  | cons f frames ih => rw [frameStarts, List.map_cons, ih]

/-- The frames that are answered are the right ones exactly when each of them is decided rightly. -/
theorem answers_eq_iff (reads : List (ℕ × ℕ)) (frames : List (ℕ × Frame)) :
    answers reads frames =
        ((frames.map Prod.snd).filter Frame.finalClose).map Frame.opcodeAndFlags ↔
      ∀ x ∈ frames, x.2.fin → x.2.closeBit → (x.2.isClose ↔ ¬ isCut reads x.1 x.2) := by
  let decided (x : ℕ × Frame) : Bool := x.2.fin && x.2.closeBit && !isCut reads x.1 x.2
  have hanswers : answers reads frames =
      (frames.filter decided).map fun x => x.2.opcodeAndFlags := by
    induction frames with
    | nil => rfl
    | cons x frames ih =>
      obtain ⟨start, f⟩ := x
      rw [answers_cons, ih, List.filter_cons]
      by_cases hx : decided (start, f) = true
      · rw [if_pos hx, if_pos hx]
        rfl
      · rw [if_neg hx, if_neg hx]
        rfl
  have hexpected : ((frames.map Prod.snd).filter Frame.finalClose).map Frame.opcodeAndFlags =
      (frames.filter fun x => x.2.finalClose).map fun x => x.2.opcodeAndFlags := by
    rw [List.filter_map, List.map_map]
    rfl
  rw [hanswers, hexpected]
  have hpoint : (∀ x ∈ frames, decided x = x.2.finalClose) ↔
      ∀ x ∈ frames, x.2.fin → x.2.closeBit → (x.2.isClose ↔ ¬ isCut reads x.1 x.2) := by
    apply forall₂_congr
    intro x _
    have himp := @Frame.closeBit_of_isClose x.2
    simp only [decided, Frame.finalClose]
    cases x.2.fin <;> cases hbit : x.2.closeBit <;> cases hclose : x.2.isClose <;>
      cases isCut reads x.1 x.2 <;> simp_all
  rw [← hpoint]
  constructor
  · intro heq
    have hle : ∀ x ∈ frames, decided x = true → x.2.finalClose = true := by
      intro x hx hdecided
      have hmem : x.2.opcodeAndFlags ∈ (frames.filter decided).map fun x => x.2.opcodeAndFlags :=
        List.mem_map_of_mem (List.mem_filter.mpr ⟨hx, hdecided⟩)
      rw [heq] at hmem
      obtain ⟨y, hy, hop⟩ := List.mem_map.mp hmem
      rw [← Frame.finalClose_congr hop]
      exact (List.mem_filter.mp hy).2
    have hsub : (frames.filter decided).Sublist (frames.filter fun x => x.2.finalClose) := by
      have hfilter : frames.filter decided =
          (frames.filter fun x => x.2.finalClose).filter decided := by
        rw [List.filter_filter]
        apply List.filter_congr
        intro x hx
        cases hdecided : decided x with
        | false => simp
        | true => simp [hle x hx hdecided]
      rw [hfilter]
      exact List.filter_sublist
    have hlength := congrArg List.length heq
    rw [List.length_map, List.length_map] at hlength
    have hsame := hsub.eq_of_length hlength
    intro x hx
    cases hfinal : x.2.finalClose with
    | false =>
      by_contra hdecided
      rw [Bool.not_eq_false] at hdecided
      rw [hle x hx hdecided] at hfinal
      cases hfinal
    | true =>
      have hmem : x ∈ frames.filter fun x => x.2.finalClose := List.mem_filter.mpr ⟨hx, hfinal⟩
      rw [← hsame] at hmem
      exact (List.mem_filter.mp hmem).2
  · intro hall
    rw [List.filter_congr hall]

/-- The messages queued after the reads are those of all bytes at once; a call during which a frame
was completed returns true; and the final close frames, and no others, are answered. -/
def PacketsDoNotMatter (frames : List Frame) (reads : List (List Byte)) : Prop :=
  ∃ enough, ∀ fuel ≥ enough, ∃ returned m wsSession ready m₁ wsSession₁,
    runReads fuel makeWSReadMachine {} reads = .ok (returned, m, wsSession) ∧
    readMachineAdvance fuel makeWSReadMachine reads.flatten {} = .ok (ready, m₁, wsSession₁) ∧
    m.messageQueue = m₁.messageQueue ∧
    CompletionsReported (readSpans 0 reads) returned (frameStarts 0 frames) ∧
    wsSession.replies = (frames.filter Frame.finalClose).map Frame.opcodeAndFlags ∧
    wsSession.closeRequested = frames.any Frame.finalClose

/-- Where the reads may cut the frames. -/
structure CleanCuts (frames : List Frame) (reads : List (List Byte)) : Prop where
  fits : ∀ f ∈ frames, f.Fits
  headers : HeadersUncut (readSpans 0 reads) (frameStarts 0 frames)
  control : ∀ x ∈ frameStarts 0 frames, x.2.fin → x.2.closeBit →
    (x.2.isClose ↔ ¬ isCut (readSpans 0 reads) x.1 x.2)

section Streams

variable {frames : List Frame} {reads : List (List Byte)}

theorem freshIdle_small : (⟨[0, 0, 0, 0], none, []⟩ : Idle).Small := by
  intro message hmessage
  cases hmessage

theorem runReads_fresh (hf : ∀ f ∈ frames, f.WellFormed) (hreads : reads.flatten = wires frames)
    {fuel : ℕ} (hfuel : ∀ data ∈ reads, data.length < fuel) :
    ((∃ f ∈ frames, ¬ f.Fits) ∧
      runReads fuel makeWSReadMachine {} reads = .error .undefinedBehaviour) ∨
    (∀ f ∈ frames, f.Fits) ∧ ∃ returned m s, runReads fuel makeWSReadMachine {} reads = .ok (returned, m, s) ∧
      m.messageQueue =
        (frames.foldl (fun i f => f.next i) (⟨[0, 0, 0, 0], none, []⟩ : Idle)).messageQueue ∧
      s.replies = answers (readSpans 0 reads) (frameStarts 0 frames) ∧
      s.closeRequested = !(answers (readSpans 0 reads) (frameStarts 0 frames)).isEmpty ∧
      (CompletionsReported (readSpans 0 reads) returned (frameStarts 0 frames) ↔
        HeadersUncut (readSpans 0 reads) (frameStarts 0 frames)) := by
  have hrun := runReads_frames (p := 0) (At.start ⟨[0, 0, 0, 0], none, []⟩ frames) hf freshIdle_small
    (by rw [List.drop_zero, hreads]) fuel hfuel {}
  exact hrun

theorem length_le_flatten {data : List Byte} (h : data ∈ reads) :
    data.length ≤ reads.flatten.length := by
  obtain ⟨before, after, rfl⟩ := List.append_of_mem h
  simp only [List.flatten_append, List.flatten_cons, List.length_append]
  omega

theorem isEmpty_map_filter (frames : List Frame) :
    (!((frames.filter Frame.finalClose).map Frame.opcodeAndFlags).isEmpty) =
      frames.any Frame.finalClose := by
  induction frames with
  | nil => rfl
  | cons f frames ih =>
    rw [List.filter_cons, List.any_cons, ← ih]
    cases f.finalClose <;> simp

theorem packetsDoNotMatter_of_cleanCuts (hf : ∀ f ∈ frames, f.WellFormed)
    (hreads : reads.flatten = wires frames) (h : CleanCuts frames reads) :
    PacketsDoNotMatter frames reads := by
  refine ⟨reads.flatten.length + 1, fun fuel hfuel => ?_⟩
  have hlen : ∀ data ∈ reads, data.length < fuel := by
    intro data hdata
    have hle := length_le_flatten hdata
    omega
  have honce : ∀ data ∈ [reads.flatten], data.length < fuel := by
    intro data hdata
    rw [List.mem_singleton.mp hdata]
    omega
  rcases runReads_fresh hf hreads hlen with ⟨⟨f, hmem, hlong⟩, -⟩ |
    ⟨-, returned, m, s, hrun, hqueue, hreplies, hrequested, hreported⟩
  · exact absurd (h.fits f hmem) hlong
  rcases runReads_fresh hf (show [reads.flatten].flatten = wires frames by simpa using hreads)
    honce with ⟨⟨f, hmem, hlong⟩, -⟩ | ⟨-, returned₁, m₁, s₁, hrun₁, hqueue₁, -, -, -⟩
  · exact absurd (h.fits f hmem) hlong
  have hanswers := (answers_eq_iff (readSpans 0 reads) (frameStarts 0 frames)).mpr h.control
  rw [frameStarts_snd] at hanswers
  have hcall : ∃ ready m₂ s₂,
      readMachineAdvance fuel makeWSReadMachine reads.flatten {} = .ok (ready, m₂, s₂) ∧
        m₂ = m₁ := by
    rw [runReads] at hrun₁
    cases hadvance : readMachineAdvance fuel makeWSReadMachine reads.flatten {} with
    | error fault =>
      rw [hadvance] at hrun₁
      cases hrun₁
    | ok r =>
      obtain ⟨ready, m₂, s₂⟩ := r
      rw [hadvance] at hrun₁
      simp only [Exec.ok_bind, runReads, Exec.pure_eq_ok, Except.ok.injEq, Prod.mk.injEq] at hrun₁
      exact ⟨ready, m₂, s₂, rfl, hrun₁.2.1⟩
  obtain ⟨ready, m₂, s₂, hadvance, rfl⟩ := hcall
  refine ⟨returned, m, s, ready, m₂, s₂, hrun, hadvance, ?_, hreported.mpr h.headers, ?_, ?_⟩
  · rw [hqueue, hqueue₁]
  · rw [hreplies, hanswers]
  · rw [hrequested, hanswers, isEmpty_map_filter]

theorem cleanCuts_of_packetsDoNotMatter (hf : ∀ f ∈ frames, f.WellFormed)
    (hreads : reads.flatten = wires frames) (h : PacketsDoNotMatter frames reads) :
    CleanCuts frames reads := by
  obtain ⟨enough, hall⟩ := h
  have hlen : ∀ data ∈ reads, data.length < enough + reads.flatten.length + 1 := by
    intro data hdata
    have hle := length_le_flatten hdata
    omega
  obtain ⟨returned, m, s, ready, m₁, s₁, hrun, -, -, hreported, hreplies, -⟩ :=
    hall (enough + reads.flatten.length + 1) (by omega)
  rcases runReads_fresh hf hreads hlen with ⟨-, hfault⟩ |
    ⟨hfits, returned', m', s', hrun', -, hreplies', -, hiff⟩
  · rw [hfault] at hrun
    cases hrun
  · rw [hrun] at hrun'
    simp only [Except.ok.injEq, Prod.mk.injEq] at hrun'
    obtain ⟨rfl, rfl, rfl⟩ := hrun'
    have hanswers : answers (readSpans 0 reads) (frameStarts 0 frames) =
        (((frameStarts 0 frames).map Prod.snd).filter Frame.finalClose).map
          Frame.opcodeAndFlags := by
      rw [frameStarts_snd, ← hreplies', hreplies]
    exact ⟨hfits, hiff.mp hreported, (answers_eq_iff _ _).mp hanswers⟩

end Streams

/-- The machine works for exactly those divisions whose reads do not end inside a header after
completing a frame, and do not begin inside a control frame, after its second byte, unless that frame
is none that closes. -/
theorem packets_do_not_matter_iff {frames : List Frame} {reads : List (List Byte)}
    (hf : ∀ f ∈ frames, f.WellFormed) (hreads : reads.flatten = wires frames) :
    PacketsDoNotMatter frames reads ↔ CleanCuts frames reads := by
  constructor
  · intro h
    exact cleanCuts_of_packetsDoNotMatter hf hreads h
  · intro h
    exact packetsDoNotMatter_of_cleanCuts hf hreads h

def maskedClose : Frame := ⟨0x88, some fun i => BitVec.ofNat 8 (i.val + 1), [0x03, 0xE8]⟩

theorem maskedClose_wellFormed : ∀ f ∈ [maskedClose], f.WellFormed := by
  intro f hmem
  rw [List.mem_singleton.mp hmem]
  exact ⟨by decide, by intro h; cases h⟩

/-- The close frame in one read. -/
theorem packets_do_not_matter_iff_whole :
    PacketsDoNotMatter [maskedClose] [[0x88, 0x82, 0x01, 0x02, 0x03, 0x04, 0x02, 0xEA]] ↔
      CleanCuts [maskedClose] [[0x88, 0x82, 0x01, 0x02, 0x03, 0x04, 0x02, 0xEA]] :=
  packets_do_not_matter_iff maskedClose_wellFormed (by decide)

/-- The close frame is cut before its payload, and not answered. -/
theorem cut_close_is_lost :
    ¬ ∀ frames reads, (∀ f ∈ frames, Frame.WellFormed f) → reads.flatten = wires frames →
      PacketsDoNotMatter frames reads := by
  intro hall
  have hflatten : [[0x88, 0x82, 0x01, 0x02, 0x03, 0x04], [0x02, (0xEA : Byte)]].flatten =
      wires [maskedClose] := by decide
  have hclean := cleanCuts_of_packetsDoNotMatter maskedClose_wellFormed hflatten
    (hall _ _ maskedClose_wellFormed hflatten)
  have hcontrol := hclean.control (0, maskedClose) List.mem_cons_self (by decide) (by decide)
  revert hcontrol
  decide

end WebSocket
end ZoweCommon
