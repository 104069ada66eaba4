import ZoweCommon.Http.ChunkedRoundTrip
import ZoweCommon.Jwt.Base64
import ZoweCommon.Lib.PaddedBase64
import ZoweCommon.Lib.Slices

/-! Files that are sent in base 64. -/
namespace ZoweCommon
namespace Http
namespace FileStreaming

open JsonWebToken (encodeBase64)
open Slices (pieces)

def FILE_STREAM_BUFFER_SIZE : ℕ := 1024000

def bufferSize : ℕ := FILE_STREAM_BUFFER_SIZE - FILE_STREAM_BUFFER_SIZE % 3

/-- What has not been read yet, and whether the last read came to the end. -/
structure UnixFile where
  rest : List Byte
  eofKnown : Bool := false

def fileEOF (file : UnixFile) : Bool := file.eofKnown

/-- The buffer is filled except at the end of the file. -/
def fileRead (file : UnixFile) (desiredBytes : ℕ) : List Byte × UnixFile :=
  (file.rest.take desiredBytes,
    { rest := file.rest.drop desiredBytes,
      eofKnown := file.eofKnown || file.rest.length < desiredBytes })

inductive Encoding
  | SIMPLE
  | CHUNKED
  | GZIP
  deriving DecidableEq, Repr

structure HttpResponse where
  runningInSubtask : Bool

/-- What the socket has sent, if there is one, and the stream. -/
structure Output where
  socket : Option (List Byte)
  stream : Option ChunkedOutputStream

/-- What comes from outside: the characters of a text in a code page, the image of each in another
one, and what a call of `convertCharset` leaves in an output buffer of twice the length: the images
of all characters, if there is room for them. -/
structure CharsetConverter where
  characters : ℤ → List Byte → List (List Byte)
  image : ℤ → ℤ → List Byte → List Byte
  convertCharset : ℤ → ℤ → List Byte → List Byte
  length_le : ∀ source target text, (convertCharset source target text).length ≤ 2 * text.length
  converts : ∀ source target text,
    ((characters source text).flatMap (image source target)).length ≤ 2 * text.length →
      convertCharset source target text = (characters source text).flatMap (image source target)

/-- A text in the other code page. -/
def CharsetConverter.converted (converter : CharsetConverter) (sourceCCSID targetCCSID : ℤ)
    (text : List Byte) : List Byte :=
  if sourceCCSID = targetCCSID then text
  else (converter.characters sourceCCSID text).flatMap (converter.image sourceCCSID targetCCSID)

section Stream

variable (writeFully : WriteFully) (encoding : Encoding)

def send (output : Output) (data : List Byte) : Exec Output :=
  if encoding = .CHUNKED then
    match output.stream with
    | none => throw .undefinedBehaviour
    | some stream => do
      let stream ← stream.writeBytes writeFully data data.length false
      return { output with stream := some stream }
  else
    match output.socket with
    | none => throw .undefinedBehaviour
    | some sent => return { output with socket := some (writeFully sent data).1 }

def finish (output : Output) : Exec Output :=
  if encoding = .CHUNKED then
    match output.stream with
    | none => throw .undefinedBehaviour
    | some stream => do
      let stream ← stream.finishChunkedOutput writeFully false
      return { output with stream := some stream }
  else return output

/-- The loop that both functions have. -/
def streamFile (put : Output → List Byte → Exec Output) : ℕ → UnixFile → Output → Exec Output
  | 0, _, _ => throw .nonTermination
  | fuel + 1, file, output =>
    if fileEOF file then return output
    else
      let (buffer, file) := fileRead file bufferSize
      if buffer.length = 0 then return output
      else do
        let output ← put output buffer
        streamFile put fuel file output

def sendBase64 (asB64 : Bool) (output : Output) (text : List Byte) : Exec Output :=
  send writeFully encoding output (if asB64 then encodeBase64 text else text)

def makeStream (response : Option HttpResponse) : Option ChunkedOutputStream :=
  if encoding = .CHUNKED then
    response.map fun response =>
      ChunkedOutputStream.makeChunkedOutputStreamInternal response.runningInSubtask
  else none

def streamBinaryForFile2 (response : Option HttpResponse) (socket : Option (List Byte))
    (file : UnixFile) (asB64 : Bool) : Exec (ℤ × Output) := do
  if (response.isSome && socket.isSome) || (response.isNone && socket.isNone) then
    return (8, ⟨socket, none⟩)
  else if encoding = .GZIP then return (8, ⟨socket, none⟩)
  else if encoding = .CHUNKED && response.isNone then return (8, ⟨socket, none⟩)
  else
    let output ← streamFile (sendBase64 writeFully encoding asB64) (file.rest.length + 2) file
      ⟨socket, makeStream encoding response⟩
    let output ← finish writeFully encoding output
    return (0, output)

variable (converter : CharsetConverter) (sourceCCSID targetCCSID : ℤ)

/-- The trace of another length names the socket, which is null if there is a response. -/
def convertBuffer (socket : Option (List Byte)) (buffer : List Byte) : Exec (List Byte) :=
  if sourceCCSID = targetCCSID then return buffer
  else
    let translation := converter.convertCharset sourceCCSID targetCCSID buffer
    if buffer.length ≠ translation.length ∧ socket.isNone then throw .undefinedBehaviour
    else return translation

def sendText (asB64 : Bool) (output : Output) (buffer : List Byte) : Exec Output := do
  let text ← convertBuffer converter sourceCCSID targetCCSID output.socket buffer
  sendBase64 writeFully encoding asB64 output text

def streamTextForFile2 (response : Option HttpResponse) (socket : Option (List Byte))
    (file : UnixFile) (asB64 : Bool) : Exec (ℤ × Output) := do
  if (response.isSome && socket.isSome) || (response.isNone && socket.isNone) then
    return (8, ⟨socket, none⟩)
  else if encoding = .CHUNKED && response.isNone then return (8, ⟨socket, none⟩)
  else if encoding = .GZIP then return (1, ⟨socket, none⟩)
  else
    let output ← streamFile (sendText writeFully encoding converter sourceCCSID targetCCSID asB64)
      (file.rest.length + 2) file ⟨socket, makeStream encoding response⟩
    let output ← finish writeFully encoding output
    return (1, output)

end Stream

/-- To whom a file is sent: each way of sending has its own. -/
inductive Recipient
  | socket
  | response (response : HttpResponse)

namespace Recipient

def encoding : Recipient → Encoding
  | socket => .SIMPLE
  | response _ => .CHUNKED

def responseArg : Recipient → Option HttpResponse
  | socket => none
  | response r => some r

/-- The socket has sent nothing before. -/
def socketArg : Recipient → Option (List Byte)
  | socket => some []
  | response _ => none

def received (output : Output) : Recipient → Option (List Byte)
  | socket => output.socket
  | response _ => output.stream.bind fun stream => ChunkedBody.decode stream.sent

/-- What was sent is one text in base 64. -/
def Decodes (recipient : Recipient) (run : Exec (ℤ × Output)) (content : List Byte) : Prop :=
  ∃ status output text, run = .ok (status, output) ∧ recipient.received output = some text ∧
    PaddedBase64.decode PaddedBase64.ascii text = some content

end Recipient

section Encoding

theorem toIso88591_translation {bits : Byte} (h : bits < 64) :
    Ebcdic.toIso88591 (Base64.translation bits) = PaddedBase64.asciiChar (bits.truncate 6) := by
  have hall : ∀ bits : Byte, bits < 64 →
      Ebcdic.toIso88591 (Base64.translation bits) = PaddedBase64.asciiChar (bits.truncate 6) := by
    simp only [Ebcdic.toIso88591_packed]
    decide +kernel
  exact hall bits h

theorem encodeBase64_cons (x y z : Byte) (data : List Byte) :
    Base64.encodeBase64 (x :: y :: z :: data) =
      Base64.encodeFullGroups [x, y, z] ++ Base64.encodeBase64 data := by
  have hgroups : (x :: y :: z :: data).length / 3 = data.length / 3 + 1 := by
    simp only [List.length_cons]
    omega
  unfold Base64.encodeBase64
  dsimp only
  rw [hgroups, Nat.mul_add, Nat.mul_one]
  rfl

/-- The text of the code is the one of base 64. -/
theorem encodeBase64_eq (data : List Byte) :
    encodeBase64 data = PaddedBase64.encode PaddedBase64.ascii data := by
  unfold JsonWebToken.encodeBase64
  fun_induction PaddedBase64.encode PaddedBase64.ascii data with
  | case1 x y z data ih =>
    rw [encodeBase64_cons, List.map_append, ih]
    simp only [Base64.encodeFullGroups, List.map_cons, List.map_nil,
      toIso88591_translation (Base64.bits₀_lt _), toIso88591_translation (Base64.bits₁_lt _ _),
      toIso88591_translation (Base64.bits₂_lt _ _), toIso88591_translation (Base64.bits₃_lt _),
      PaddedBase64.secondSextet_masked, PaddedBase64.thirdSextet_masked,
      PaddedBase64.fourthSextet_masked]
    rfl
  | case2 x y =>
    have hpart : Base64.encodeBase64 [x, y] = Base64.encodePartialGroup [x, y] := by
      simp [Base64.encodeBase64, Base64.encodeFullGroups]
    have hpad : Ebcdic.toIso88591 Base64.EQUALS = PaddedBase64.ascii.pad := by decide
    rw [hpart, Base64.encodePartialGroup, Base64.bits₂_zero]
    simp only [List.map_cons, List.map_nil, toIso88591_translation (Base64.bits₀_lt _),
      toIso88591_translation (Base64.bits₁_lt _ _), toIso88591_translation (Base64.bits₂_lt _ _),
      PaddedBase64.secondSextet_masked, PaddedBase64.thirdSextet_masked, hpad]
    rfl
  | case3 x =>
    have hpart : Base64.encodeBase64 [x] = Base64.encodePartialGroup [x] := by
      simp [Base64.encodeBase64, Base64.encodeFullGroups]
    have hpad : Ebcdic.toIso88591 Base64.EQUALS = PaddedBase64.ascii.pad := by decide
    rw [hpart, Base64.encodePartialGroup, Base64.bits₁_zero]
    simp only [List.map_cons, List.map_nil, toIso88591_translation (Base64.bits₀_lt _),
      toIso88591_translation (Base64.bits₁_lt _ _), PaddedBase64.secondSextet_masked, hpad]
    rfl
  | case4 => rfl

end Encoding

section Reading

variable {put : Output → List Byte → Exec Output}

theorem bufferSize_pos : 0 < bufferSize := by decide

/-- The file is read in pieces. -/
theorem streamFile_eq (fuel : ℕ) (content : List Byte) (hfuel : content.length + 1 < fuel)
    (output : Output) : streamFile put fuel { rest := content } output =
      (pieces bufferSize content).foldlM put output := by
  induction fuel generalizing content output with
  | zero => omega
  | succ fuel ih =>
    rw [streamFile]
    unfold fileEOF fileRead
    dsimp only
    rw [if_neg Bool.false_ne_true]
    by_cases hnil : content = []
    · rw [hnil, Slices.pieces_nil]
      rfl
    · have hpos := List.length_pos_iff.mpr hnil
      have hbuffer := bufferSize_pos
      have htake : (content.take bufferSize).length ≠ 0 := by
        rw [List.length_take]
        omega
      rw [if_neg htake, Slices.pieces_of_ne_nil bufferSize_pos hnil, List.foldlM_cons]
      congr 1
      funext output'
      by_cases hshort : content.length < bufferSize
      · -- the end is known, and there is no further read
        rw [decide_eq_true hshort, List.drop_eq_nil_of_le hshort.le, Slices.pieces_nil]
        obtain ⟨fuel, rfl⟩ := Nat.exists_eq_succ_of_ne_zero (show fuel ≠ 0 by omega)
        rfl
      · rw [decide_eq_false hshort]
        apply ih
        rw [List.length_drop]
        omega

/-- What is sent of a file that is read in pieces of this length. -/
theorem aligned_pieces (content : List Byte) :
    PaddedBase64.Aligned (pieces bufferSize content) := by
  fun_induction pieces bufferSize content with
  | case1 content h ih =>
    refine ⟨?_, ih⟩
    by_cases hlong : bufferSize ≤ content.length
    · left
      have hthree : 3 ∣ bufferSize := by decide
      rw [List.length_take, Nat.min_eq_left hlong]
      exact hthree
    · right
      rw [List.drop_eq_nil_of_le (by omega), Slices.pieces_nil, List.flatten_nil]
  | case2 content h => trivial

end Reading

section Stream

variable {writeFully : WriteFully}

def writeText (writeFully : WriteFully) (stream : ChunkedOutputStream) (text : List Byte) :
    Exec ChunkedOutputStream := stream.writeBytes writeFully text text.length false

theorem exists_calls {texts : List (List Byte)} (h : ∀ text ∈ texts, text.length < 2 ^ 31) :
    ∃ calls : List OutputCall, calls.map OutputCall.text = texts ∧
      (∀ c ∈ calls, c.translate = false) ∧ (∀ c ∈ calls, c.text.length < 2 ^ 31) ∧
      ∀ stream, calls.foldlM (fun s c => c.perform writeFully s) stream =
        texts.foldlM (writeText writeFully) stream := by
  induction texts with
  | nil => exact ⟨[], rfl, nofun, nofun, fun _ => rfl⟩
  | cons text texts ih =>
    obtain ⟨htext, hrest⟩ := List.forall_mem_cons.mp h
    obtain ⟨calls, hcalls, hflags, hfits, hrun⟩ := ih hrest
    refine ⟨.writeBytes text false htext :: calls, ?_, ?_, ?_, ?_⟩
    · rw [List.map_cons, hcalls]
      rfl
    · exact List.forall_mem_cons.mpr ⟨rfl, hflags⟩
    · exact List.forall_mem_cons.mpr ⟨htext, hfits⟩
    · intro stream
      rw [List.foldlM_cons, List.foldlM_cons]
      congr 1
      funext s
      exact hrun s

theorem sentTexts_untranslated {calls : List OutputCall} (h : ∀ c ∈ calls, c.translate = false)
    (fill : ℕ) : sentTexts fill (.finishChunkedOutput false) calls = calls.map OutputCall.text ∧
      flushFlag fill (.finishChunkedOutput false) calls = false := by
  induction calls generalizing fill with
  | nil => exact ⟨rfl, rfl⟩
  | cons c calls ih =>
    obtain ⟨hc, hcalls⟩ := List.forall_mem_cons.mp h
    have hrest := ih hcalls
    have hsame : ChunkedOutputStream.translated false c.text = c.text := rfl
    rw [sentTexts, flushFlag, hc, (hrest _).1, (hrest _).1, (hrest _).2, hsame, List.map_cons]
    constructor <;> split_ifs <;> rfl

theorem stream_texts (hw : writeFully.Succeeds) (runningInSubtask : Bool)
    {texts : List (List Byte)} (h : ∀ text ∈ texts, text.length < 2 ^ 31) (sent : List Byte) :
    (∃ stream, (texts.foldlM (writeText writeFully)
        (ChunkedOutputStream.makeChunkedOutputStreamInternal runningInSubtask) >>=
          fun s => s.finishChunkedOutput writeFully false) = .ok stream ∧
      ChunkedBody.decode stream.sent = some sent) ↔
        runningInSubtask = false ∧ texts.flatten = sent := by
  obtain ⟨calls, hcalls, hflags, hfits, hrun⟩ := @exists_calls writeFully _ h
  have hrespond : (texts.foldlM (writeText writeFully)
      (ChunkedOutputStream.makeChunkedOutputStreamInternal runningInSubtask) >>=
        fun s => s.finishChunkedOutput writeFully false) =
          respond writeFully runningInSubtask calls (.finishChunkedOutput false) := by
    unfold respond
    rw [hrun]
    rfl
  rw [hrespond]
  cases runningInSubtask with
  | true =>
    have hdetached : Detached (ChunkedOutputStream.makeChunkedOutputStreamInternal true) :=
      ⟨rfl, rfl⟩
    have herror : respond writeFully true calls (.finishChunkedOutput false) =
        .error .undefinedBehaviour := hdetached.run calls _
    rw [herror]
    constructor
    · rintro ⟨stream, hstream, -⟩
      cases hstream
    · intro hsubtask
      exact absurd hsubtask.1 (by decide)
  | false =>
    obtain ⟨stream, hstream, hdecode⟩ := respond_ok hw hfits (.finishChunkedOutput false)
    rw [(sentTexts_untranslated hflags 0).1, hcalls] at hdecode
    rw [hstream]
    constructor
    · rintro ⟨other, hother, hsent⟩
      cases hother
      rw [hdecode] at hsent
      exact ⟨rfl, Option.some.inj hsent⟩
    · rintro ⟨-, rfl⟩
      exact ⟨stream, rfl, hdecode⟩

end Stream

section Sending

variable {writeFully : WriteFully} {put : Output → List Byte → Exec Output}
  {f : List Byte → List Byte}

theorem foldlM_socket (hput : ∀ sent piece, put ⟨some sent, none⟩ piece =
      .ok ⟨some (sent ++ encodeBase64 (f piece)), none⟩) (ps : List (List Byte)) (sent : List Byte) :
    ps.foldlM put ⟨some sent, none⟩ =
      .ok ⟨some (sent ++ (ps.map f).flatMap encodeBase64), none⟩ := by
  induction ps generalizing sent with
  | nil =>
    rw [List.map_nil, List.flatMap_nil, List.append_nil]
    rfl
  | cons piece ps ih =>
    rw [List.foldlM_cons, hput, Exec.ok_bind, ih, List.map_cons, List.flatMap_cons,
      List.append_assoc]

def ofStream (stream : ChunkedOutputStream) : Output := ⟨none, some stream⟩

variable {good : List Byte → Prop} [DecidablePred good]

theorem foldlM_stream (hput : ∀ stream piece, put (ofStream stream) piece =
      if good piece then ofStream <$> writeText writeFully stream (encodeBase64 (f piece))
      else .error .undefinedBehaviour) {ps : List (List Byte)} (h : ∀ piece ∈ ps, good piece)
    (stream : ChunkedOutputStream) :
    ps.foldlM put (ofStream stream) =
      ofStream <$> (ps.map fun piece => encodeBase64 (f piece)).foldlM (writeText writeFully) stream := by
  induction ps generalizing stream with
  | nil => rfl
  | cons piece ps ih =>
    obtain ⟨hpiece, hps⟩ := List.forall_mem_cons.mp h
    rw [List.foldlM_cons, hput, if_pos hpiece, List.map_cons, List.foldlM_cons]
    cases writeText writeFully stream (encodeBase64 (f piece)) with
    | error fault => rfl
    | ok stream' => exact ih hps stream'

/-- A run that ends well has gone well for each piece. -/
theorem good_of_foldlM (hput : ∀ stream piece, put (ofStream stream) piece =
      if good piece then ofStream <$> writeText writeFully stream (encodeBase64 (f piece))
      else .error .undefinedBehaviour) {ps : List (List Byte)} {stream : ChunkedOutputStream}
    {output : Output} (h : ps.foldlM put (ofStream stream) = .ok output) :
    ∀ piece ∈ ps, good piece := by
  induction ps generalizing stream with
  | nil => exact nofun
  | cons piece ps ih =>
    rw [List.foldlM_cons, hput] at h
    by_cases hpiece : good piece
    · rw [if_pos hpiece] at h
      cases hwrite : writeText writeFully stream (encodeBase64 (f piece)) with
      | error fault =>
        rw [hwrite] at h
        cases h
      | ok stream' =>
        rw [hwrite] at h
        exact List.forall_mem_cons.mpr ⟨hpiece, ih h⟩
    · rw [if_neg hpiece] at h
      cases h

def runFile (writeFully : WriteFully) (put : Output → List Byte → Exec Output) (status : ℤ)
    (content : List Byte) (recipient : Recipient) : Exec (ℤ × Output) := do
  let output ← streamFile put (content.length + 2) { rest := content }
    ⟨recipient.socketArg, makeStream recipient.encoding recipient.responseArg⟩
  let output ← finish writeFully recipient.encoding output
  return (status, output)

variable {status : ℤ} {content data : List Byte}

theorem flatMap_encodeBase64 (texts : List (List Byte)) :
    texts.flatMap encodeBase64 = texts.flatMap (PaddedBase64.encode PaddedBase64.ascii) :=
  List.flatMap_congr fun text _ => encodeBase64_eq text

theorem decodes_socket (hput : ∀ sent piece, put ⟨some sent, none⟩ piece =
      .ok ⟨some (sent ++ encodeBase64 (f piece)), none⟩) :
    Recipient.socket.Decodes (runFile writeFully put status content .socket) data ↔
      PaddedBase64.Aligned ((pieces bufferSize content).map f) ∧
        ((pieces bufferSize content).map f).flatten = data := by
  have hrun : runFile writeFully put status content .socket =
      .ok (status, ⟨some (((pieces bufferSize content).map f).flatMap encodeBase64), none⟩) := by
    unfold runFile
    rw [streamFile_eq _ _ (Nat.lt_succ_self _)]
    have hfold := foldlM_socket hput (pieces bufferSize content) []
    have hstart : (⟨Recipient.socketArg .socket,
        makeStream (Recipient.encoding .socket) (Recipient.responseArg .socket)⟩ : Output) =
          ⟨some [], none⟩ := rfl
    rw [hstart, hfold]
    rfl
  rw [← @PaddedBase64.decode_flatMap_iff PaddedBase64.ascii, ← flatMap_encodeBase64]
  unfold Recipient.Decodes
  rw [hrun]
  constructor
  · rintro ⟨status', output, text, hok, hreceived, hdecode⟩
    cases hok
    cases hreceived
    exact hdecode
  · intro hdecode
    exact ⟨_, _, _, rfl, rfl, hdecode⟩

theorem decodes_response (hw : writeFully.Succeeds)
    (hput : ∀ stream piece, put (ofStream stream) piece =
      if good piece then ofStream <$> writeText writeFully stream (encodeBase64 (f piece))
      else .error .undefinedBehaviour)
    (hfits : ∀ piece ∈ pieces bufferSize content, (encodeBase64 (f piece)).length < 2 ^ 31)
    (response : HttpResponse) :
    (Recipient.response response).Decodes
        (runFile writeFully put status content (.response response)) data ↔
      response.runningInSubtask = false ∧ (∀ piece ∈ pieces bufferSize content, good piece) ∧
        PaddedBase64.Aligned ((pieces bufferSize content).map f) ∧
        ((pieces bufferSize content).map f).flatten = data := by
  rw [← @PaddedBase64.decode_flatMap_iff PaddedBase64.ascii, ← flatMap_encodeBase64]
  have hstart : (⟨Recipient.socketArg (.response response),
      makeStream (Recipient.encoding (.response response))
        (Recipient.responseArg (.response response))⟩ : Output) =
      ofStream (ChunkedOutputStream.makeChunkedOutputStreamInternal response.runningInSubtask) := rfl
  have hread := @streamFile_eq put _ content (Nat.lt_succ_self _)
    (ofStream (ChunkedOutputStream.makeChunkedOutputStreamInternal response.runningInSubtask))
  have hfinish (stream : ChunkedOutputStream) :
      finish writeFully (Recipient.encoding (.response response)) (ofStream stream) =
        ofStream <$> stream.finishChunkedOutput writeFully false := by
    cases hend : stream.finishChunkedOutput writeFully false <;>
      simp [finish, Recipient.encoding, ofStream, hend]
  have hfits' : ∀ text ∈ (pieces bufferSize content).map fun piece => encodeBase64 (f piece),
      text.length < 2 ^ 31 := by
    intro text htext
    obtain ⟨piece, hpiece, rfl⟩ := List.mem_map.mp htext
    exact hfits piece hpiece
  have htexts := stream_texts hw response.runningInSubtask hfits'
  have hflatten : ((pieces bufferSize content).map fun piece => encodeBase64 (f piece)).flatten =
      ((pieces bufferSize content).map f).flatMap encodeBase64 := by
    rw [List.flatMap_map]
    exact List.flatMap_def.symm
  rw [hflatten] at htexts
  constructor
  · rintro ⟨status', output, text, hok, hreceived, hdecode⟩
    unfold runFile at hok
    rw [hstart, hread] at hok
    obtain ⟨output', hfold, hok⟩ := Exec.bind_eq_ok.mp hok
    have hgood := good_of_foldlM hput hfold
    rw [foldlM_stream hput hgood] at hfold
    cases hwritten : ((pieces bufferSize content).map fun piece =>
        encodeBase64 (f piece)).foldlM (writeText writeFully)
          (ChunkedOutputStream.makeChunkedOutputStreamInternal response.runningInSubtask) with
    | error fault =>
      rw [hwritten] at hfold
      cases hfold
    | ok stream =>
      rw [hwritten] at hfold
      cases hfold
      rw [hfinish] at hok
      cases hend : stream.finishChunkedOutput writeFully false with
      | error fault =>
        rw [hend] at hok
        cases hok
      | ok stream' =>
        rw [hend] at hok
        cases hok
        have hsent := (htexts text).mp ⟨stream', by rw [hwritten]; exact hend, hreceived⟩
        obtain ⟨hmain, rfl⟩ := hsent
        exact ⟨hmain, hgood, hdecode⟩
  · rintro ⟨hmain, hgood, hdecode⟩
    obtain ⟨stream, hrun, hsent⟩ := (htexts _).mpr ⟨hmain, rfl⟩
    obtain ⟨stream', hwritten, hend⟩ := Exec.bind_eq_ok.mp hrun
    refine ⟨status, ofStream stream, _, ?_, hsent, hdecode⟩
    unfold runFile
    rw [hstart, hread, foldlM_stream hput hgood, hwritten]
    show (finish writeFully _ (ofStream stream') >>= _) = _
    rw [hfinish, hend]
    rfl

end Sending

section Conversion

variable {writeFully : WriteFully} {converter : CharsetConverter} {sourceCCSID targetCCSID : ℤ}
  {content data : List Byte}

def pieceText (converter : CharsetConverter) (sourceCCSID targetCCSID : ℤ) (piece : List Byte) :
    List Byte :=
  if sourceCCSID = targetCCSID then piece
  else converter.convertCharset sourceCCSID targetCCSID piece

/-- A piece keeps its length, if it is converted at all. -/
def KeepsLength (converter : CharsetConverter) (sourceCCSID targetCCSID : ℤ) (piece : List Byte) :
    Prop :=
  (pieceText converter sourceCCSID targetCCSID piece).length = piece.length

instance : DecidablePred (KeepsLength converter sourceCCSID targetCCSID) :=
  fun _ => inferInstanceAs (Decidable (_ = _))

def textPieces (converter : CharsetConverter) (sourceCCSID targetCCSID : ℤ) (content : List Byte) :
    List (List Byte) :=
  (pieces bufferSize content).map (pieceText converter sourceCCSID targetCCSID)

theorem convertBuffer_some (sent piece : List Byte) :
    convertBuffer converter sourceCCSID targetCCSID (some sent) piece =
      .ok (pieceText converter sourceCCSID targetCCSID piece) := by
  unfold convertBuffer pieceText
  split_ifs with hsame
  · rfl
  · dsimp only
    rw [if_neg fun h => Bool.false_ne_true h.2]
    rfl

theorem convertBuffer_none (piece : List Byte) :
    convertBuffer converter sourceCCSID targetCCSID none piece =
      if KeepsLength converter sourceCCSID targetCCSID piece
      then .ok (pieceText converter sourceCCSID targetCCSID piece)
      else .error .undefinedBehaviour := by
  by_cases hsame : sourceCCSID = targetCCSID
  · have htext : pieceText converter sourceCCSID targetCCSID piece = piece := if_pos hsame
    have hkeeps : KeepsLength converter sourceCCSID targetCCSID piece := congrArg List.length htext
    unfold convertBuffer
    rw [if_pos hsame, if_pos hkeeps, htext]
    rfl
  · have htext : pieceText converter sourceCCSID targetCCSID piece =
        converter.convertCharset sourceCCSID targetCCSID piece := if_neg hsame
    unfold convertBuffer
    rw [if_neg hsame]
    dsimp only
    by_cases hkeeps : KeepsLength converter sourceCCSID targetCCSID piece
    · have hlength : piece.length = (converter.convertCharset sourceCCSID targetCCSID piece).length :=
        htext ▸ hkeeps.symm
      rw [if_pos hkeeps, if_neg fun h => h.1 hlength, htext]
      rfl
    · have hlength : piece.length ≠ (converter.convertCharset sourceCCSID targetCCSID piece).length := by
        intro hlength
        apply hkeeps
        unfold KeepsLength
        rw [htext, hlength]
      rw [if_neg hkeeps, if_pos ⟨hlength, rfl⟩]
      rfl

theorem length_encodeBase64_lt {text : List Byte} (h : text.length ≤ 2 * bufferSize) :
    (encodeBase64 text).length < 2 ^ 31 := by
  have hsize : bufferSize = 1023999 := rfl
  unfold JsonWebToken.encodeBase64
  rw [List.length_map, Base64.length_encodeBase64]
  omega

theorem length_pieceText_le {piece : List Byte} (h : piece ∈ pieces bufferSize content) :
    (pieceText converter sourceCCSID targetCCSID piece).length ≤ 2 * bufferSize := by
  have hpiece := Slices.length_le_of_mem_pieces h
  have hconverted := converter.length_le sourceCCSID targetCCSID piece
  unfold pieceText
  split_ifs <;> omega

/-- The calls for a recipient. -/
def streamBinary (writeFully : WriteFully) (recipient : Recipient) (content : List Byte) :
    Exec (ℤ × Output) :=
  streamBinaryForFile2 writeFully recipient.encoding recipient.responseArg recipient.socketArg
    { rest := content } true

def streamText (writeFully : WriteFully) (converter : CharsetConverter)
    (sourceCCSID targetCCSID : ℤ) (recipient : Recipient) (content : List Byte) :
    Exec (ℤ × Output) :=
  streamTextForFile2 writeFully recipient.encoding converter sourceCCSID targetCCSID
    recipient.responseArg recipient.socketArg { rest := content } true

theorem streamBinary_eq (recipient : Recipient) :
    streamBinary writeFully recipient content =
      runFile writeFully (sendBase64 writeFully recipient.encoding true) 0 content recipient := by
  cases recipient <;> rfl

theorem streamText_eq (recipient : Recipient) :
    streamText writeFully converter sourceCCSID targetCCSID recipient content =
      runFile writeFully
        (sendText writeFully recipient.encoding converter sourceCCSID targetCCSID true) 1 content
          recipient := by
  cases recipient <;> rfl

theorem sendBase64_socket (hw : writeFully.Succeeds) (sent text : List Byte) :
    sendBase64 writeFully .SIMPLE true ⟨some sent, none⟩ text =
      .ok ⟨some (sent ++ encodeBase64 text), none⟩ := by
  have hsend : sendBase64 writeFully .SIMPLE true ⟨some sent, none⟩ text =
      .ok ⟨some (writeFully sent (encodeBase64 text)).1, none⟩ := rfl
  rw [hsend, hw]

theorem sendBase64_stream (stream : ChunkedOutputStream) (text : List Byte) :
    sendBase64 writeFully .CHUNKED true (ofStream stream) text =
      ofStream <$> writeText writeFully stream (encodeBase64 text) := by
  cases hwrite : writeText writeFully stream (encodeBase64 text) <;>
    · unfold writeText at hwrite
      simp [sendBase64, send, ofStream, hwrite]

theorem sendText_socket (hw : writeFully.Succeeds) (sent piece : List Byte) :
    sendText writeFully .SIMPLE converter sourceCCSID targetCCSID true ⟨some sent, none⟩ piece =
      .ok ⟨some (sent ++ encodeBase64 (pieceText converter sourceCCSID targetCCSID piece)), none⟩ := by
  unfold sendText
  dsimp only
  rw [convertBuffer_some, Exec.ok_bind, sendBase64_socket hw]

theorem sendText_stream (stream : ChunkedOutputStream) (piece : List Byte) :
    sendText writeFully .CHUNKED converter sourceCCSID targetCCSID true (ofStream stream) piece =
      if KeepsLength converter sourceCCSID targetCCSID piece then
        ofStream <$> writeText writeFully stream
          (encodeBase64 (pieceText converter sourceCCSID targetCCSID piece))
      else .error .undefinedBehaviour := by
  unfold sendText
  have hsocket : (ofStream stream).socket = none := rfl
  rw [hsocket, convertBuffer_none]
  split_ifs
  · rw [Exec.ok_bind, sendBase64_stream]
  · rfl

/-- In the main task binary files arrive as they are. -/
theorem streamBinary_iff (hw : writeFully.Succeeds) (recipient : Recipient) :
    recipient.Decodes (streamBinary writeFully recipient content) content ↔
      ∀ response, recipient = .response response → response.runningInSubtask = false := by
  have hflatten : ((pieces bufferSize content).map id).flatten = content := by
    rw [List.map_id, Slices.flatten_pieces bufferSize_pos]
  have haligned : PaddedBase64.Aligned ((pieces bufferSize content).map id) := by
    rw [List.map_id]
    exact aligned_pieces content
  rw [streamBinary_eq]
  cases recipient with
  | socket =>
    have hsent := @decodes_socket writeFully _ id 0 content content (sendBase64_socket hw)
    simp only [reduceCtorEq, false_imp_iff, implies_true, iff_true]
    exact hsent.mpr ⟨haligned, hflatten⟩
  | response r =>
    have hput (stream : ChunkedOutputStream) (piece : List Byte) :
        sendBase64 writeFully .CHUNKED true (ofStream stream) piece =
          if (fun _ => True) piece then ofStream <$> writeText writeFully stream (encodeBase64 (id piece))
          else .error .undefinedBehaviour := by
      rw [sendBase64_stream, if_pos trivial]
      rfl
    have hfits : ∀ piece ∈ pieces bufferSize content, (encodeBase64 (id piece)).length < 2 ^ 31 := by
      intro piece hpiece
      apply length_encodeBase64_lt
      exact (Slices.length_le_of_mem_pieces hpiece).trans (by omega)
    have hsent := @decodes_response writeFully _ id _ _ 0 content content hw hput hfits r
    simp only [Recipient.response.injEq, forall_eq']
    refine hsent.trans ⟨fun h => h.1, fun h => ⟨h, fun _ _ => trivial, haligned, hflatten⟩⟩

structure FitTogether (converter : CharsetConverter) (sourceCCSID targetCCSID : ℤ)
    (content : List Byte) : Prop where
  aligned : PaddedBase64.Aligned (textPieces converter sourceCCSID targetCCSID content)
  whole : (textPieces converter sourceCCSID targetCCSID content).flatten =
    converter.converted sourceCCSID targetCCSID content

theorem streamText_iff (hw : writeFully.Succeeds) (recipient : Recipient) :
    recipient.Decodes (streamText writeFully converter sourceCCSID targetCCSID recipient content)
        (converter.converted sourceCCSID targetCCSID content) ↔
      FitTogether converter sourceCCSID targetCCSID content ∧
        ∀ response, recipient = .response response → response.runningInSubtask = false ∧
          ∀ piece ∈ pieces bufferSize content,
            KeepsLength converter sourceCCSID targetCCSID piece := by
  have hfit : FitTogether converter sourceCCSID targetCCSID content ↔
      PaddedBase64.Aligned (textPieces converter sourceCCSID targetCCSID content) ∧
        (textPieces converter sourceCCSID targetCCSID content).flatten =
          converter.converted sourceCCSID targetCCSID content :=
    ⟨fun h => ⟨h.aligned, h.whole⟩, fun h => ⟨h.1, h.2⟩⟩
  rw [streamText_eq, hfit]
  cases recipient with
  | socket =>
    simp only [reduceCtorEq, false_imp_iff, implies_true, and_true]
    exact decodes_socket (sendText_socket hw)
  | response r =>
    simp only [Recipient.response.injEq, forall_eq']
    have hfits : ∀ piece ∈ pieces bufferSize content,
        (encodeBase64 (pieceText converter sourceCCSID targetCCSID piece)).length < 2 ^ 31 :=
      fun piece hpiece => length_encodeBase64_lt (length_pieceText_le hpiece)
    have hsent := @decodes_response writeFully _ (pieceText converter sourceCCSID targetCCSID) _ _ 1
      content (converter.converted sourceCCSID targetCCSID content) hw sendText_stream hfits r
    unfold textPieces
    exact hsent.trans
      ⟨fun ⟨hmain, hgood, haligned, hwhole⟩ => ⟨⟨haligned, hwhole⟩, hmain, hgood⟩,
        fun ⟨⟨haligned, hwhole⟩, hmain, hgood⟩ => ⟨hmain, hgood, haligned, hwhole⟩⟩

/-- Nothing is sent in a subtask, a conversion keeps the length of each piece if there is no socket,
and pieces fit together. -/
structure Streamable (converter : CharsetConverter) (sourceCCSID targetCCSID : ℤ)
    (content : List Byte) (recipient : Recipient) : Prop where
  fit : FitTogether converter sourceCCSID targetCCSID content
  mainTask : ∀ response, recipient = .response response → response.runningInSubtask = false
  lengths : ∀ response, recipient = .response response → ∀ piece ∈ pieces bufferSize content,
    KeepsLength converter sourceCCSID targetCCSID piece

/-- A file arrives as one text in base 64, as it is and converted. -/
theorem streamed_base64_iff (hw : writeFully.Succeeds) (converter : CharsetConverter)
    (sourceCCSID targetCCSID : ℤ) (content : List Byte) (recipient : Recipient) :
    (recipient.Decodes (streamBinary writeFully recipient content) content ∧
      recipient.Decodes (streamText writeFully converter sourceCCSID targetCCSID recipient content)
        (converter.converted sourceCCSID targetCCSID content)) ↔
      Streamable converter sourceCCSID targetCCSID content recipient := by
  rw [streamBinary_iff hw, streamText_iff hw]
  constructor
  · rintro ⟨hmain, hfit, hlengths⟩
    exact ⟨hfit, hmain, fun response hresponse => (hlengths response hresponse).2⟩
  · intro h
    exact ⟨h.mainTask, h.fit, fun response hresponse =>
      ⟨h.mainTask response hresponse, h.lengths response hresponse⟩⟩

/-- A character of ISO 8859-1 in UTF-8. -/
def utf8Image (b : Byte) : List Byte :=
  if b < 0x80 then [b] else [0xC0 ||| (b >>> 6), 0x80 ||| (b &&& 0x3F)]

theorem length_flatMap_utf8Image (text : List Byte) :
    (text.flatMap utf8Image).length ≤ 2 * text.length := by
  induction text with
  | nil => exact le_refl _
  | cons b text ih =>
    have hb : (utf8Image b).length ≤ 2 := by
      unfold utf8Image
      split_ifs <;> simp
    rw [List.flatMap_cons, List.length_append, List.length_cons]
    omega

/-- A converter of ISO 8859-1 into UTF-8, whatever it is asked for. -/
def latinConverter : CharsetConverter where
  characters _ text := text.map fun b => [b]
  image _ _ character := character.flatMap utf8Image
  convertCharset _ _ text := text.flatMap utf8Image
  length_le _ _ text := length_flatMap_utf8Image text
  converts _ _ text _ := by
    rw [List.flatMap_map]
    simp

def CCSID_ISO_8859_1 : ℤ := 819

def CCSID_UTF_8 : ℤ := 1208

/-- A short file, that is sent in one piece. -/
theorem streamed_base64_short :
    Recipient.socket.Decodes (streamBinary (fun sent data => (sent ++ data, true)) .socket [0x41])
        [0x41] ∧
      Recipient.socket.Decodes (streamText (fun sent data => (sent ++ data, true)) latinConverter
        CCSID_ISO_8859_1 CCSID_UTF_8 .socket [0x41])
        (latinConverter.converted CCSID_ISO_8859_1 CCSID_UTF_8 [0x41]) := by
  have hpieces : pieces bufferSize [(0x41 : Byte)] = [[0x41]] := by
    rw [Slices.pieces_of_ne_nil bufferSize_pos (List.cons_ne_nil _ _)]
    exact congrArg _ (Slices.pieces_nil _)
  apply (streamed_base64_iff (fun _ _ => rfl) latinConverter CCSID_ISO_8859_1 CCSID_UTF_8 [0x41]
    .socket).mpr
  refine ⟨⟨?_, ?_⟩, nofun, nofun⟩
  · unfold textPieces
    rw [hpieces]
    exact ⟨Or.inr rfl, trivial⟩
  · unfold textPieces
    rw [hpieces]
    rfl

/-- A letter that is no letter of ASCII, and so many others that one more piece is needed. -/
def longText : List Byte := 0xE9 :: List.replicate bufferSize 0x41

theorem pieces_longText :
    pieces bufferSize longText = [0xE9 :: List.replicate (bufferSize - 1) 0x41, [0x41]] := by
  have hne : longText ≠ [] := List.cons_ne_nil _ _
  have hsize : bufferSize = (bufferSize - 1) + 1 := rfl
  have htake : longText.take bufferSize = 0xE9 :: List.replicate (bufferSize - 1) 0x41 := by
    rw [longText, hsize, List.take_succ_cons, List.take_replicate]
    rfl
  have hdrop : longText.drop bufferSize = [0x41] := by
    rw [longText]
    nth_rewrite 1 [hsize]
    rw [List.drop_succ_cons, List.drop_replicate]
    rfl
  rw [Slices.pieces_of_ne_nil bufferSize_pos hne, htake, hdrop,
    Slices.pieces_of_ne_nil bufferSize_pos (List.cons_ne_nil _ _)]
  exact congrArg _ (congrArg _ (Slices.pieces_nil _))

/-- After the first piece, which is one byte longer, there is another one. -/
theorem not_aligned_longText :
    ¬PaddedBase64.Aligned (textPieces latinConverter CCSID_ISO_8859_1 CCSID_UTF_8 longText) := by
  have hletters (n : ℕ) : (List.replicate n (0x41 : Byte)).flatMap utf8Image =
      List.replicate n 0x41 := by
    induction n with
    | zero => rfl
    | succ n ih =>
      rw [List.replicate_succ, List.flatMap_cons, ih]
      rfl
  have hfirst : pieceText latinConverter CCSID_ISO_8859_1 CCSID_UTF_8
      (0xE9 :: List.replicate (bufferSize - 1) 0x41) =
        utf8Image 0xE9 ++ List.replicate (bufferSize - 1) 0x41 := by
    have hother : CCSID_ISO_8859_1 ≠ CCSID_UTF_8 := by decide
    unfold pieceText
    rw [if_neg hother]
    show (0xE9 :: List.replicate (bufferSize - 1) 0x41).flatMap utf8Image = _
    rw [List.flatMap_cons, hletters]
  unfold textPieces
  rw [pieces_longText, List.map_cons, hfirst, PaddedBase64.Aligned, List.length_append,
    List.length_replicate]
  intro haligned
  rcases haligned.1 with hdvd | hnil
  · have hlength : (utf8Image 0xE9).length = 2 := rfl
    have hsize : bufferSize = 1023999 := rfl
    rw [hlength, hsize] at hdvd
    omega
  · exact List.cons_ne_nil _ _ hnil

/-- The two pieces are two texts in base 64. -/
theorem not_streamed_base64 :
    ¬(Recipient.socket.Decodes (streamBinary (fun sent data => (sent ++ data, true)) .socket longText)
        longText ∧
      Recipient.socket.Decodes (streamText (fun sent data => (sent ++ data, true)) latinConverter
        CCSID_ISO_8859_1 CCSID_UTF_8 .socket longText)
        (latinConverter.converted CCSID_ISO_8859_1 CCSID_UTF_8 longText)) := by
  intro h
  have hw : WriteFully.Succeeds fun sent data => (sent ++ data, true) := fun _ _ => rfl
  exact not_aligned_longText ((streamText_iff hw .socket).mp h.2).1.aligned

end Conversion

end FileStreaming
end Http
end ZoweCommon
