import ZoweCommon.WebSocket.FrameReading

/-! What the server's frames come to when they are read again. -/
namespace ZoweCommon
namespace WebSocket

/-- The frame that the server sends is not masked. -/
def serverFrame (opcodeAndFlags : Byte) (payload : List Byte) : Frame := ⟨opcodeAndFlags, none, payload⟩

theorem serverFrame_wire (opcodeAndFlags : Byte) (payload : List Byte) :
    (serverFrame opcodeAndFlags payload).wire =
      (serverFrame opcodeAndFlags payload).header ++ payload := by
  rw [Frame.wire, Frame.body, serverFrame, Frame.masked_none]

theorem addNewWSFrame_eq {opcodeAndFlags : Byte} {payload bytes : List Byte}
    (h : addNewWSFrame opcodeAndFlags payload = .ok bytes) :
    bytes = (serverFrame opcodeAndFlags payload).wire ∧ payload.length < 2 ^ 31 := by
  unfold addNewWSFrame at h
  by_cases hfits : payload.length +
      (if 65536 ≤ payload.length then 10 else if 126 ≤ payload.length then 4 else 2) ≤ INT_MAX
  · simp only [hfits, if_true] at h
    constructor
    · have hbytes := Except.ok.inj h
      rw [← hbytes, serverFrame_wire]
      simp only [Frame.header, Frame.lengthByte, Frame.length7, Frame.extended, Frame.maskBytes,
        serverFrame]
      by_cases hlong : 65536 ≤ payload.length
      · simp [hlong]
      · by_cases hmiddle : 126 ≤ payload.length
        · simp [hlong, hmiddle]
        · simp [hlong, hmiddle]
    · unfold INT_MAX at hfits
      omega
  · simp only [hfits, if_false] at h
    cases h

/-- The machine is where a frame can begin. -/
def WSReadMachine.Ready (m : WSReadMachine) : Prop := ∃ i : Idle, m = i.machine

/-- The frames of all messages, with those of the message that is not complete yet. -/
def WSReadMachine.framesRead (m : WSReadMachine) : List WSFrame :=
  (m.messageQueue ++ m.currentMessage.toList).flatMap WSMessage.frames

/-- The server's frame is read as it was written, in one call, and the machine is ready again. -/
def RoundTrips (opcodeAndFlags : Byte) (payload : List Byte) (wsSession : WSSession) : Prop :=
  ∃ bytes, addNewWSFrame opcodeAndFlags payload = .ok bytes ∧
    ∃ enough, ∀ fuel ≥ enough, ∃ m wsSession',
      readMachineAdvance fuel makeWSReadMachine bytes wsSession = .ok (true, m, wsSession') ∧
        m.framesRead = [⟨opcodeAndFlags, payload⟩] ∧ m.Ready

/-- Between frames, with nothing read so far. -/
def freshIdle : Idle := ⟨[0, 0, 0, 0], none, []⟩

theorem advanceLoop_server (opcodeAndFlags : Byte) {payload : List Byte}
    (hpay : payload.length < 2 ^ 31) (wsSession : WSSession) (fuel : ℕ) :
    readMachineAdvance (fuel + 1) makeWSReadMachine (serverFrame opcodeAndFlags payload).wire
        wsSession =
      (do
        let f := serverFrame opcodeAndFlags payload
        let stream ← writeToBigBuffer (makeBigBuffer 256) payload
        let (m, s) ← (f.inPayload freshIdle payload.length stream).completeFrame wsSession f.closeBit
        advanceLoop f.wire fuel ⟨m, s, f.wire.length, f.closeBit, true⟩) := by
  have hheader := (serverFrame opcodeAndFlags payload).two_le_header
  have hpayload : (serverFrame opcodeAndFlags payload).payload = payload := rfl
  generalize hf : serverFrame opcodeAndFlags payload = f at *
  have hmask : f.mask = none := by rw [← hf]; rfl
  have hstart : makeWSReadMachine = f.inHeader freshIdle 0 := rfl
  have hstarts : f.wire <+: f.wire.drop 0 ++ [] := by simp
  have hloop := Frame.loop_header_full (i := freshIdle) wsSession false false
    (by rw [hpayload]; omega) (Left.start f.wire) hstarts (by omega)
    (by rw [Frame.wire_length]; omega) fuel
  unfold readMachineAdvance
  rw [hstart]
  have hzero : ((0 : ℕ) : ℤ) = 0 := rfl
  rw [hzero] at hloop
  rw [hloop]
  have hleft := (Left.start f.wire).advance (show f.header.length ≤ f.wire.length by
    rw [Frame.wire_length]; omega)
  have hdrop : f.wire.drop f.header.length = payload := by
    have hall := Frame.wire_drop_header (f := f) 0
    rw [Nat.add_zero, List.drop_zero, Frame.body, hmask, Frame.masked_none, hpayload] at hall
    exact hall
  have hpiece : f.piece 0 payload = payload := by
    rw [Frame.piece, hpayload, List.drop_zero, List.take_length]
  rw [hdrop] at hleft
  have hstarts' : payload <+: f.wire.drop (f.header.length + 0) ++ [] := by
    simpa only [Nat.add_zero, hdrop, List.append_nil] using List.prefix_rfl
  have heq := Frame.payload_eq (i := freshIdle) hleft hstarts' (makeBigBuffer 256) (Nat.zero_le _)
    (by rw [hpayload]; exact hpay) wsSession f.closeBit false
  simp only [if_pos (show 0 < 2 by decide), Nat.sub_zero]
  rw [heq, hpiece, hpayload]
  have hnomask : f.mask.isSome = false := by rw [hmask]; rfl
  simp only [Frame.writePiece, hnomask, Bool.false_eq_true, if_false, Nat.zero_add, if_true]
  cases writeToBigBuffer (makeBigBuffer 256) payload with
  | error fault => rfl
  | ok stream =>
    simp only [Exec.ok_bind]
    cases (f.inPayload freshIdle payload.length stream).completeFrame wsSession f.closeBit with
    | error fault => rfl
    | ok r =>
      simp only [Exec.ok_bind, Exec.pure_eq_ok, Frame.wire_length, hpayload]

/-- The buffer grows once, from 256 bytes. -/
theorem writeToBigBuffer_fresh (payload : List Byte) (h : payload.length < 2 ^ 31) :
    writeToBigBuffer (makeBigBuffer 256) payload =
      if payload.length ≤ 512 then
        .ok ⟨payload, if 256 < payload.length then 512 else 256⟩
      else .error .undefinedBehaviour := by
  unfold writeToBigBuffer makeBigBuffer INT_MAX
  simp only [List.length_nil, Nat.zero_add, List.nil_append]
  split_ifs <;> first | rfl | omega

theorem roundTrips_of_short (opcodeAndFlags : Byte) {payload : List Byte}
    (h : payload.length ≤ 512) (wsSession : WSSession) :
    RoundTrips opcodeAndFlags payload wsSession := by
  obtain ⟨bytes, hbytes, -⟩ := addNewWSFrame_head opcodeAndFlags (show payload.length ≤ 2 ^ 30 by omega)
  obtain ⟨hwire, hlt⟩ := addNewWSFrame_eq hbytes
  refine ⟨bytes, hbytes, 2, fun fuel hfuel => ?_⟩
  obtain ⟨fuel, rfl⟩ : ∃ k, fuel = k + 1 + 1 := ⟨fuel - 2, by omega⟩
  have hloop := advanceLoop_server opcodeAndFlags hlt wsSession (fuel + 1)
  rw [writeToBigBuffer_fresh payload hlt, if_pos h] at hloop
  have hmessage : ((serverFrame opcodeAndFlags payload).message freshIdle).frames =
      [⟨opcodeAndFlags, payload⟩] := rfl
  obtain ⟨s', hcomplete, -, -⟩ := (serverFrame opcodeAndFlags payload).complete_eq freshIdle wsSession
    (serverFrame opcodeAndFlags payload).closeBit
    (by
      rw [hmessage]
      intro frame hframe
      rw [List.mem_singleton.mp hframe]
      exact h.trans (by decide))
  refine ⟨((serverFrame opcodeAndFlags payload).next freshIdle).machine, s', ?_, ?_, ⟨_, rfl⟩⟩
  · have hframe := @Frame.completeFrame_eq (serverFrame opcodeAndFlags payload) freshIdle
      ⟨payload, if 256 < payload.length then 512 else 256⟩ rfl payload.length wsSession
      (serverFrame opcodeAndFlags payload).closeBit
    rw [hwire, hloop]
    simp only [Exec.ok_bind, hframe, hcomplete, Exec.pure_eq_ok]
    simp [advanceLoop]
  · unfold WSReadMachine.framesRead Frame.next Idle.machine
    generalize (serverFrame opcodeAndFlags payload).message freshIdle = message at *
    cases (serverFrame opcodeAndFlags payload).fin <;> simp [hmessage, freshIdle]

theorem not_roundTrips_of_long (opcodeAndFlags : Byte) {payload : List Byte}
    (h : 512 < payload.length) (wsSession : WSSession) :
    ¬ RoundTrips opcodeAndFlags payload wsSession := by
  intro hround
  obtain ⟨bytes, hbytes, enough, hrun⟩ := hround
  obtain ⟨hwire, hlt⟩ := addNewWSFrame_eq hbytes
  obtain ⟨m, s', hok, -, -⟩ := hrun (enough + 1) (Nat.le_succ enough)
  have hloop := advanceLoop_server opcodeAndFlags hlt wsSession enough
  rw [writeToBigBuffer_fresh payload hlt, if_neg (by omega)] at hloop
  rw [hwire, hloop] at hok
  cases hok

/-- Longer payloads are written outside the buffer, which grows only once for each write. -/
theorem server_frame_round_trips_iff (opcodeAndFlags : Byte) (payload : List Byte)
    (wsSession : WSSession) :
    RoundTrips opcodeAndFlags payload wsSession ↔ payload.length ≤ 512 := by
  constructor
  · intro hround
    by_contra hlong
    exact not_roundTrips_of_long opcodeAndFlags (by omega) wsSession hround
  · intro hshort
    exact roundTrips_of_short opcodeAndFlags hshort wsSession

/-- A binary frame with a payload of 513 bytes. -/
theorem long_frame_does_not_round_trip :
    ¬ ∀ opcodeAndFlags payload wsSession, RoundTrips opcodeAndFlags payload wsSession := by
  intro hall
  have hlen : 512 < (List.replicate 513 (0x61 : Byte)).length := by rw [List.length_replicate]; decide
  exact not_roundTrips_of_long 0x82 hlen {} (hall 0x82 (List.replicate 513 0x61) {})

end WebSocket
end ZoweCommon
