import ZoweCommon.WebSocket.ReadMachine

/-! JSON that is printed to a web socket. -/
namespace ZoweCommon
namespace WebSocket

def CHARSET_CONVERSION_SUCCESS : ℕ := 0

/-- What comes from outside: the conversion from a CCSID to UTF-8 into a buffer of a size, with its
status and what it left in the buffer. -/
abbrev ConvertCharset := ℤ → ℕ → List Byte → ℕ × List Byte

/-- The part of a session that is for output: of the frame buffer, what is there up to
`outputFramePos`, and the buffers of the work elements that were enqueued. -/
structure WSOutput where
  isOutputBinary : Bool
  outputCCSID : ℤ
  outputFrameSize : ℕ := 0
  outputFrame : List Byte := []
  enqueued : List (List Byte) := []

def initWSJsonPrinting (session : WSOutput) (maxFrameSize : ℕ) : Exec WSOutput :=
  if maxFrameSize * 2 ≤ INT_MAX then
    return { session with outputFrameSize := maxFrameSize, outputFrame := [] }
  else throw .undefinedBehaviour

section Write

variable (convertCharset : ConvertCharset)

/-- The status of a conversion is not looked at. -/
def outputPayload (session : WSOutput) : List Byte :=
  if session.isOutputBinary then session.outputFrame
  else (convertCharset session.outputCCSID (session.outputFrameSize * 2) session.outputFrame).2

def dataOpcode (session : WSOutput) : Byte :=
  if session.isOutputBinary then OPCODE_BINARY_FRAME else OPCODE_TEXT_FRAME

def wsMessageEnqueue (session : WSOutput) (isLastFrame : Bool) : Exec WSOutput := do
  let opcodeAndFlags := (if isLastFrame then 0x80 else 0x00) ||| dataOpcode session
  let buffer ← addNewWSFrame opcodeAndFlags (outputPayload convertCharset session)
  return { session with enqueued := session.enqueued ++ [buffer] }

/-- What fills the frame is not counted before the frame is enqueued. -/
def wsJsonWriteCallback (session : WSOutput) (text : List Byte) : Exec WSOutput := do
  let remainingSpace := session.outputFrameSize - session.outputFrame.length
  if text.length < remainingSpace then
    return { session with outputFrame := session.outputFrame ++ text }
  else
    let session ← wsMessageEnqueue convertCharset session false
    let leftover := text.drop remainingSpace
    if leftover.length ≤ session.outputFrameSize then
      return { session with outputFrame := leftover }
    else throw .undefinedBehaviour

def flushWSJsonPrinting (session : WSOutput) : Exec WSOutput := do
  let session ← wsMessageEnqueue convertCharset session true
  return { session with outputFrame := [] }

/-- A printer's whole life. -/
def printWSJson (session : WSOutput) (maxFrameSize : ℕ) (pieces : List (List Byte)) :
    Exec WSOutput := do
  let session ← initWSJsonPrinting session maxFrameSize
  let session ← pieces.foldlM (wsJsonWriteCallback convertCharset) session
  flushWSJsonPrinting convertCharset session

def asMessage (opcode : Byte) : List (List Byte) → List (Byte × List Byte)
  | [] => []
  | [payload] => [(0x80 ||| opcode, payload)]
  | payload :: more => (opcode, payload) :: asMessage OPCODE_CONTINUATION more

/-- Whether a payload is a text: the text itself, or what it is in UTF-8. -/
def IsText (session : WSOutput) (maxFrameSize : ℕ) (text payload : List Byte) : Prop :=
  if session.isOutputBinary then payload = text
  else convertCharset session.outputCCSID (maxFrameSize * 2) text =
    (CHARSET_CONVERSION_SUCCESS, payload)

/-- All stores are inside the buffers, and what is enqueued is one message with the text. -/
def Lossless (session : WSOutput) (maxFrameSize : ℕ) (pieces : List (List Byte)) : Prop :=
  ∃ session', printWSJson convertCharset session maxFrameSize pieces = .ok session' ∧
    ∃ buffers payloads, session'.enqueued = session.enqueued ++ buffers ∧ payloads ≠ [] ∧
      IsText convertCharset session maxFrameSize pieces.flatten payloads.flatten ∧
      (asMessage (dataOpcode session) payloads).mapM (fun f => addNewWSFrame f.1 f.2) = .ok buffers

/-- One frame is enough, its conversion succeeds, and its size is an `int`. -/
structure OneFrame (session : WSOutput) (maxFrameSize : ℕ) (pieces : List (List Byte)) : Prop where
  sizes : maxFrameSize * 2 ≤ INT_MAX
  room : pieces = [] ∨ pieces.flatten.length < maxFrameSize
  converted : session.isOutputBinary = false →
    (convertCharset session.outputCCSID (maxFrameSize * 2) pieces.flatten).1 =
        CHARSET_CONVERSION_SUCCESS ∧
      (convertCharset session.outputCCSID (maxFrameSize * 2) pieces.flatten).2.length + 10 ≤ INT_MAX

section Lemmas

variable {convertCharset} {session : WSOutput}

/-- Pieces that fit are collected. -/
theorem writes_of_room {pieces : List (List Byte)}
    (h : pieces = [] ∨ session.outputFrame.length + pieces.flatten.length < session.outputFrameSize) :
    pieces.foldlM (wsJsonWriteCallback convertCharset) session =
      .ok { session with outputFrame := session.outputFrame ++ pieces.flatten } := by
  induction pieces generalizing session with
  | nil => simp
  | cons text pieces ih =>
    have hlt := h.resolve_left (List.cons_ne_nil text pieces)
    rw [List.flatten_cons, List.length_append] at hlt
    have hstep : wsJsonWriteCallback convertCharset session text =
        .ok { session with outputFrame := session.outputFrame ++ text } := by
      unfold wsJsonWriteCallback
      rw [if_pos (by omega)]
      rfl
    rw [List.foldlM_cons, hstep, Exec.ok_bind, ih]
    · simp
    · right
      simp only [List.length_append]
      omega

theorem addNewWSFrame_head_of_ok {opcodeAndFlags : Byte} {payload buffer : List Byte}
    (h : addNewWSFrame opcodeAndFlags payload = .ok buffer) : buffer.head? = some opcodeAndFlags := by
  unfold addNewWSFrame at h
  by_cases hfits : payload.length +
      (if 65536 ≤ payload.length then 10 else if 126 ≤ payload.length then 4 else 2) ≤ INT_MAX
  · simp only [hfits, if_true] at h
    rw [← Except.ok.inj h]
    rfl
  · simp only [hfits, if_false] at h
    cases h

theorem addNewWSFrame_fits {opcodeAndFlags : Byte} {payload : List Byte} :
    (∃ buffer, addNewWSFrame opcodeAndFlags payload = .ok buffer) ↔ payload.length + 10 ≤ INT_MAX := by
  unfold addNewWSFrame
  by_cases hfits : payload.length +
      (if 65536 ≤ payload.length then 10 else if 126 ≤ payload.length then 4 else 2) ≤ INT_MAX
  · simp only [hfits, if_true]
    constructor
    · intro _
      unfold INT_MAX at hfits ⊢
      split_ifs at hfits <;> omega
    · intro _
      exact ⟨_, rfl⟩
  · simp only [hfits, if_false]
    constructor
    · rintro ⟨_, h⟩
      cases h
    · intro hlen
      unfold INT_MAX at hfits hlen
      split_ifs at hfits <;> omega

theorem wsMessageEnqueue_ok {isLastFrame : Bool} {session' : WSOutput}
    (h : wsMessageEnqueue convertCharset session isLastFrame = .ok session') :
    ∃ buffer, addNewWSFrame ((if isLastFrame then 0x80 else 0x00) ||| dataOpcode session)
        (outputPayload convertCharset session) = .ok buffer ∧
      session' = { session with enqueued := session.enqueued ++ [buffer] } := by
  unfold wsMessageEnqueue at h
  obtain ⟨buffer, hbuffer, hsession⟩ := Exec.bind_eq_ok.mp h
  exact ⟨buffer, hbuffer, (Except.ok.inj hsession).symm⟩

/-- Whatever is written, buffers are only added, and how frames are made stays the same. -/
theorem write_adds {session' : WSOutput} {text : List Byte}
    (h : wsJsonWriteCallback convertCharset session text = .ok session') :
    session'.isOutputBinary = session.isOutputBinary ∧
      session'.outputFrameSize = session.outputFrameSize ∧
      ∃ more, session'.enqueued = session.enqueued ++ more ∧
        (more = [] → session'.outputFrame = session.outputFrame ++ text ∧
          session'.outputFrame.length < session.outputFrameSize) := by
  unfold wsJsonWriteCallback at h
  dsimp only at h
  split at h
  · next hroom =>
    rw [← Except.ok.inj h]
    refine ⟨rfl, rfl, [], (List.append_nil _).symm, fun _ => ⟨rfl, ?_⟩⟩
    simp only [List.length_append]
    omega
  · obtain ⟨session₁, henqueue, hrest⟩ := Exec.bind_eq_ok.mp h
    obtain ⟨buffer, -, rfl⟩ := wsMessageEnqueue_ok henqueue
    split at hrest
    · rw [← Except.ok.inj hrest]
      exact ⟨rfl, rfl, [buffer], rfl, fun hnil => by cases hnil⟩
    · cases hrest

theorem writes_add {pieces : List (List Byte)} {session' : WSOutput}
    (h : pieces.foldlM (wsJsonWriteCallback convertCharset) session = .ok session') :
    session'.isOutputBinary = session.isOutputBinary ∧
      ∃ more, session'.enqueued = session.enqueued ++ more ∧
        (more = [] → pieces = [] ∨
          session.outputFrame.length + pieces.flatten.length < session.outputFrameSize) := by
  induction pieces generalizing session with
  | nil =>
    rw [← Except.ok.inj h]
    exact ⟨rfl, [], (List.append_nil _).symm, fun _ => Or.inl rfl⟩
  | cons text pieces ih =>
    rw [List.foldlM_cons] at h
    obtain ⟨session₁, hwrite, hrest⟩ := Exec.bind_eq_ok.mp h
    obtain ⟨hbinary₁, hsize₁, more₁, hmore₁, hroom₁⟩ := write_adds hwrite
    obtain ⟨hbinary, more, hmore, hroom⟩ := ih hrest
    refine ⟨hbinary.trans hbinary₁, more₁ ++ more, by rw [hmore, hmore₁, List.append_assoc], ?_⟩
    intro hnil
    obtain ⟨hnil₁, hnil₂⟩ := List.append_eq_nil_iff.mp hnil
    obtain ⟨hframe, hlt⟩ := hroom₁ hnil₁
    right
    rw [List.flatten_cons, List.length_append]
    rw [hframe, List.length_append] at hlt
    rcases hroom hnil₂ with rfl | hmore
    · simpa [Nat.add_assoc] using hlt
    · rw [hframe, List.length_append, hsize₁] at hmore
      omega

theorem asMessage_length (opcode : Byte) (payloads : List (List Byte)) :
    (asMessage opcode payloads).length = payloads.length := by
  induction payloads generalizing opcode with
  | nil => rfl
  | cons payload more ih =>
    cases more with
    | nil => rfl
    | cons next more =>
      rw [asMessage, List.length_cons, ih, List.length_cons (a := payload)]
      exact List.cons_ne_nil next more

/-- The last of several frames is a continuation. -/
theorem asMessage_last (opcode : Byte) (payload next : List Byte) (more : List (List Byte)) :
    ((asMessage opcode (payload :: next :: more)).map Prod.fst).getLast? = some 0x80 := by
  induction more generalizing opcode payload next with
  | nil => rfl
  | cons third more ih =>
    rw [asMessage, List.map_cons]
    · have hlast := ih OPCODE_CONTINUATION next third
      cases hframes : (asMessage OPCODE_CONTINUATION (next :: third :: more)).map Prod.fst with
      | nil =>
        rw [hframes] at hlast
        cases hlast
      | cons first frames =>
        rw [hframes] at hlast
        rw [List.getLast?_cons_cons, hlast]
    · exact List.cons_ne_nil _ _

theorem heads_of_mapM {frames : List (Byte × List Byte)} {buffers : List (List Byte)}
    (h : frames.mapM (fun f => addNewWSFrame f.1 f.2) = .ok buffers) :
    buffers.map List.head? = frames.map fun f => some f.1 := by
  induction frames generalizing buffers with
  | nil =>
    rw [List.mapM_nil] at h
    rw [← Except.ok.inj h]
    rfl
  | cons f frames ih =>
    rw [List.mapM_cons] at h
    obtain ⟨buffer, hbuffer, hrest⟩ := Exec.bind_eq_ok.mp h
    obtain ⟨more, hmore, hall⟩ := Exec.bind_eq_ok.mp hrest
    rw [← Except.ok.inj hall, List.map_cons, List.map_cons, ih hmore,
      addNewWSFrame_head_of_ok hbuffer]

theorem dataOpcode_or (session : WSOutput) : 0x80 ||| dataOpcode session ≠ 0x80 := by
  unfold dataOpcode
  split <;> decide

end Lemmas

section Main

variable {convertCharset} {session : WSOutput} {maxFrameSize : ℕ} {pieces : List (List Byte)}

def started (session : WSOutput) (maxFrameSize : ℕ) : WSOutput :=
  { session with outputFrameSize := maxFrameSize, outputFrame := [] }

/-- What it is when a text has been written that fits. -/
def collected (session : WSOutput) (maxFrameSize : ℕ) (text : List Byte) : WSOutput :=
  { started session maxFrameSize with outputFrame := [] ++ text }

theorem outputPayload_collected (text : List Byte) :
    outputPayload convertCharset (collected session maxFrameSize text) =
      if session.isOutputBinary then text
      else (convertCharset session.outputCCSID (maxFrameSize * 2) text).2 := rfl

theorem printWSJson_ok {session' : WSOutput}
    (h : printWSJson convertCharset session maxFrameSize pieces = .ok session') :
    maxFrameSize * 2 ≤ INT_MAX ∧ ∃ session₁ buffer,
      pieces.foldlM (wsJsonWriteCallback convertCharset) (started session maxFrameSize) = .ok session₁ ∧
      addNewWSFrame (0x80 ||| dataOpcode session₁) (outputPayload convertCharset session₁) = .ok buffer ∧
      session'.enqueued = session₁.enqueued ++ [buffer] := by
  unfold printWSJson initWSJsonPrinting at h
  obtain ⟨session₀, hinit, hrest⟩ := Exec.bind_eq_ok.mp h
  obtain ⟨session₁, hwrite, hflush⟩ := Exec.bind_eq_ok.mp hrest
  split at hinit
  · next hsizes =>
    rw [← Except.ok.inj hinit] at hwrite
    unfold flushWSJsonPrinting at hflush
    obtain ⟨session₂, henqueue, hlast⟩ := Exec.bind_eq_ok.mp hflush
    obtain ⟨buffer, hbuffer, rfl⟩ := wsMessageEnqueue_ok henqueue
    rw [← Except.ok.inj hlast]
    exact ⟨hsizes, session₁, buffer, hwrite, hbuffer, rfl⟩
  · cases hinit

theorem lossless_of_oneFrame (h : OneFrame convertCharset session maxFrameSize pieces) :
    Lossless convertCharset session maxFrameSize pieces := by
  have hsizes := h.sizes
  have hroom : pieces = [] ∨ (started session maxFrameSize).outputFrame.length +
      pieces.flatten.length < (started session maxFrameSize).outputFrameSize := by
    rcases h.room with hnil | hlt
    · exact Or.inl hnil
    · right
      show 0 + pieces.flatten.length < maxFrameSize
      omega
  have hwrite := @writes_of_room convertCharset _ _ hroom
  have hpayload : IsText convertCharset session maxFrameSize pieces.flatten
      (outputPayload convertCharset (collected session maxFrameSize pieces.flatten)) ∧
      (outputPayload convertCharset (collected session maxFrameSize pieces.flatten)).length + 10 ≤
        INT_MAX := by
    rw [outputPayload_collected]
    unfold IsText
    by_cases hbinary : session.isOutputBinary
    · rw [if_pos hbinary, if_pos hbinary]
      constructor
      · rfl
      · unfold INT_MAX at hsizes ⊢
        rcases h.room with rfl | hlt
        · simp
        · omega
    · obtain ⟨hstatus, hlength⟩ := h.converted (Bool.eq_false_iff.mpr hbinary)
      simp only [hbinary]
      exact ⟨Prod.ext hstatus rfl, hlength⟩
  obtain ⟨buffer, hbuffer⟩ := (@addNewWSFrame_fits (0x80 ||| dataOpcode session) _).mpr hpayload.2
  refine ⟨{ started session maxFrameSize with enqueued := session.enqueued ++ [buffer] }, ?_,
    [buffer], [outputPayload convertCharset (collected session maxFrameSize pieces.flatten)], rfl,
    List.cons_ne_nil _ _, ?_, ?_⟩
  · have hinit : initWSJsonPrinting session maxFrameSize = .ok (started session maxFrameSize) :=
      if_pos hsizes
    have henqueue : wsMessageEnqueue convertCharset (collected session maxFrameSize pieces.flatten)
        true = .ok { collected session maxFrameSize pieces.flatten with
          enqueued := session.enqueued ++ [buffer] } := by
      unfold wsMessageEnqueue
      change addNewWSFrame (0x80 ||| dataOpcode session) _ >>= _ = _
      rw [hbuffer]
      rfl
    unfold printWSJson
    rw [hinit, Exec.ok_bind, hwrite, Exec.ok_bind]
    unfold flushWSJsonPrinting
    change wsMessageEnqueue convertCharset (collected session maxFrameSize pieces.flatten) true >>= _
      = _
    rw [henqueue]
    rfl
  · simpa using hpayload.1
  · rw [asMessage, List.mapM_cons, hbuffer]
    rfl

/-- No frame may be sent before the last, since each one carries the data opcode. -/
theorem oneFrame_of_lossless (h : Lossless convertCharset session maxFrameSize pieces) :
    OneFrame convertCharset session maxFrameSize pieces := by
  obtain ⟨session', hprint, buffers, payloads, hbuffers, hne, htext, hmessage⟩ := h
  obtain ⟨hsizes, session₁, buffer, hwrite, hbuffer, hlast⟩ := printWSJson_ok hprint
  obtain ⟨hbinary, more, hmore, hroom⟩ := writes_add hwrite
  have hopcode : dataOpcode session₁ = dataOpcode session := by
    unfold dataOpcode
    rw [hbinary]
    rfl
  rw [hlast, hmore, List.append_assoc] at hbuffers
  have hall : more ++ [buffer] = buffers := List.append_cancel_left hbuffers
  have hheads := heads_of_mapM hmessage
  have hlength : more.length + 1 = payloads.length := by
    have hlength := congrArg List.length hheads
    rwa [List.length_map, List.length_map, asMessage_length, ← hall, List.length_append,
      List.length_singleton] at hlength
  have hnil : more = [] := by
    by_contra hsome
    have hpos : 0 < more.length := List.length_pos_iff.mpr hsome
    obtain ⟨payload, next, rest, rfl⟩ : ∃ payload next rest, payloads = payload :: next :: rest := by
      cases payloads with
      | nil => exact absurd rfl hne
      | cons payload payloads =>
        cases payloads with
        | nil =>
          rw [List.length_singleton] at hlength
          omega
        | cons next rest => exact ⟨payload, next, rest, rfl⟩
    have hlastHead := asMessage_last (dataOpcode session) payload next rest
    have hsame := congrArg List.getLast? hheads
    have hfirst (frames : List (Byte × List Byte)) :
        (frames.map fun f => some f.1) = (frames.map Prod.fst).map some := by
      rw [List.map_map]
      rfl
    rw [← hall, List.map_append, List.map_singleton, List.getLast?_append_of_ne_nil _ (by simp),
      List.getLast?_singleton, addNewWSFrame_head_of_ok hbuffer, hopcode, hfirst,
      List.getLast?_map, hlastHead] at hsame
    exact dataOpcode_or session (Option.some.inj (Option.some.inj hsame))
  have hfits := hroom hnil
  have hwritten := @writes_of_room convertCharset _ _ hfits
  rw [hwritten] at hwrite
  rw [← Except.ok.inj hwrite] at hbuffer
  subst hnil
  obtain ⟨payload, rfl⟩ : ∃ payload, payloads = [payload] :=
    List.length_eq_one_iff.mp hlength.symm
  constructor
  · exact hsizes
  · rcases hfits with hnil | hlt
    · exact Or.inl hnil
    · right
      have hlt : 0 + pieces.flatten.length < maxFrameSize := hlt
      omega
  · intro hbinary
    rw [List.flatten_singleton] at htext
    unfold IsText at htext
    rw [hbinary] at htext
    simp only [Bool.false_eq_true, if_false] at htext
    have hfit := addNewWSFrame_fits.mp ⟨buffer, hbuffer⟩
    have hpayload : outputPayload convertCharset (collected session maxFrameSize pieces.flatten) =
        payload := by
      rw [outputPayload_collected, hbinary, htext]
      rfl
    change (outputPayload convertCharset (collected session maxFrameSize pieces.flatten)).length + 10
      ≤ INT_MAX at hfit
    rw [hpayload] at hfit
    rw [htext]
    exact ⟨rfl, hfit⟩

/-- JSON output to a web socket is lossless iff one frame is enough for it. -/
theorem json_output_lossless_iff (convertCharset : ConvertCharset) (session : WSOutput)
    (maxFrameSize : ℕ) (pieces : List (List Byte)) :
    Lossless convertCharset session maxFrameSize pieces ↔
      OneFrame convertCharset session maxFrameSize pieces := by
  constructor
  · exact oneFrame_of_lossless
  · exact lossless_of_oneFrame

/-- Five bytes in frames of four. -/
theorem second_frame_is_lost :
    ¬ Lossless (fun _ _ text => (CHARSET_CONVERSION_SUCCESS, text))
      { isOutputBinary := true, outputCCSID := 1208 } 4 [[0x74, 0x72, 0x75, 0x65, 0x21]] := by
  intro h
  rcases (oneFrame_of_lossless h).room with hnil | hlt
  · cases hnil
  · exact absurd hlt (by decide)

end Main

end Write

end WebSocket
end ZoweCommon
