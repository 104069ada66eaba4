import Mathlib.Algebra.Order.BigOperators.Group.List
import ZoweCommon.Json.StreamingCorrect

/-! Any calls of a printer, and what it writes from fresh or after a reset. -/
namespace ZoweCommon
namespace StreamPrinter

open CLibrary CString JsonPrinter

variable {O : Type}

/-! Any calls -/

/-- From one printer to the next there may have been any calls: some text was written, up to the
first error, and nothing once the flag was up. -/
structure Outputs (p q : StreamPrinter O) : Prop where
  writeMethod : q.writeMethod = p.writeMethod
  stopped : p.ioErrorFlag = true → q.ioErrorFlag = true ∧ q.customObject = p.customObject
  writes : p.ioErrorFlag = false → ∃ text error,
    Writes p.writeMethod p.customObject text q.customObject error ∧
      (error = true → q.ioErrorFlag = true)

namespace Outputs

variable {p q r : StreamPrinter O}

theorem trans (ha : Outputs p q) (hb : Outputs q r) : Outputs p r := by
  constructor
  · exact hb.writeMethod.trans ha.writeMethod
  · intro hstop
    have hq := ha.stopped hstop
    have hr := hb.stopped hq.1
    exact ⟨hr.1, hr.2.trans hq.2⟩
  · intro hok
    obtain ⟨text, error, hfirst, herror⟩ := ha.writes hok
    cases hq : q.ioErrorFlag with
    | true =>
      have hr := hb.stopped hq
      rw [hr.2]
      exact ⟨text, error, hfirst, fun _ => hr.1⟩
    | false =>
      obtain ⟨rest, last, hsecond, hlast⟩ := hb.writes hq
      have hnone : error = false := by
        cases error with
        | true => exact absurd ((herror rfl).symm.trans hq) (by simp)
        | false => rfl
      rw [hnone] at hfirst
      rw [ha.writeMethod] at hsecond
      exact ⟨text ++ rest, last, hfirst.append hsecond, hlast⟩

theorem of_same (hmethod : q.writeMethod = p.writeMethod) (hobject : q.customObject = p.customObject)
    (herror : p.ioErrorFlag = true → q.ioErrorFlag = true) : Outputs p q := by
  constructor
  · exact hmethod
  · exact fun hstop => ⟨herror hstop, hobject⟩
  · intro _
    rw [hobject]
    exact ⟨[], false, .nil _, fun h => absurd h Bool.false_ne_true⟩

theorem refl (p : StreamPrinter O) : Outputs p p := .of_same rfl rfl id

end Outputs

theorem Wrote.outputs {p q : StreamPrinter O} {text : List Byte} (h : Wrote p text q) : Outputs p q := by
  constructor
  · exact congrArg Setup.writeMethod h.setup
  · exact h.stopped
  · exact fun hok => ⟨text, q.ioErrorFlag, h.writes hok, id⟩

theorem Wrote.isEnd {p q : StreamPrinter O} {text : List Byte} (h : Wrote p text q) :
    q.isEnd = p.isEnd := congrArg Flags.isEnd h.flags

/-- The flag that announces a closing bracket is always taken down. -/
theorem outputs_jsonNewLine (p : StreamPrinter O) :
    Outputs p p.jsonNewLine ∧ p.jsonNewLine.isEnd = false := by
  have hline : ∀ q : StreamPrinter O, ∃ text,
      Wrote q text (if q.prettyPrint then (q.jsonWrite (ascii "\n")).jsonIndent else q) := by
    intro q
    cases q.prettyPrint with
    | false => exact ⟨[], .refl q⟩
    | true => exact ⟨_, (wrote_jsonWrite q (ascii "\n")).trans (wrote_indent _ _)⟩
  have hflags : ∀ q r : StreamPrinter O, Outputs p q → q.isEnd = false →
      r = (if q.prettyPrint then (q.jsonWrite (ascii "\n")).jsonIndent else q) →
      Outputs p r ∧ r.isEnd = false := by
    intro q r hq hend hr
    obtain ⟨text, hwrote⟩ := hline q
    rw [← hr] at hwrote
    exact ⟨hq.trans hwrote.outputs, hwrote.isEnd.trans hend⟩
  unfold jsonNewLine
  dsimp only
  by_cases hend : p.isEnd = true
  · rw [if_pos hend]
    exact hflags { p with isEnd := false } _ (.of_same rfl rfl id) rfl rfl
  rw [if_neg hend]
  have hclear : p.isEnd = false := by simpa using hend
  by_cases hstart : p.isStart = true
  · rw [if_pos hstart]
    exact hflags { p with isStart := false } _ (.of_same rfl rfl id) hclear rfl
  · rw [if_neg hstart]
    have hcomma := wrote_jsonWrite p (ascii ",")
    exact hflags (p.jsonWrite (ascii ",")) _ hcomma.outputs (hcomma.isEnd.trans hclear) rfl

theorem outputs_jsonStartValue (p : StreamPrinter O) (key : Option CString) :
    Outputs p (p.jsonStartValue key) ∧ (p.isEnd = false → (p.jsonStartValue key).isEnd = false) := by
  unfold jsonStartValue
  dsimp only
  by_cases hfirst : p.isFirstLine = true
  · rw [if_pos hfirst]
    have hkey := wrote_key writtenDouble { p with isFirstLine := false } key
    have hflag : Outputs p { p with isFirstLine := false } := .of_same rfl rfl id
    exact ⟨hflag.trans hkey.outputs, fun hend => hkey.isEnd.trans hend⟩
  · rw [if_neg hfirst]
    have hkey := wrote_key writtenDouble p.jsonNewLine key
    obtain ⟨hline, hend⟩ := outputs_jsonNewLine p
    exact ⟨hline.trans hkey.outputs, fun _ => hkey.isEnd.trans hend⟩

theorem outputs_jsonStart (bracket : List Byte) (p : StreamPrinter O) (key : Option CString) :
    Outputs p (jsonStart bracket p key) ∧ (p.isEnd = false → (jsonStart bracket p key).isEnd = false) := by
  unfold jsonStart
  split_ifs
  · exact ⟨.refl p, id⟩
  · have hbracket := wrote_jsonWrite (p.jsonStartValue key) bracket
    have hvalue := (outputs_jsonStartValue p key).1.trans hbracket.outputs
    exact ⟨hvalue.trans (.of_same rfl rfl id), fun _ => rfl⟩

theorem outputs_jsonEnd (bracket : List Byte) (p : StreamPrinter O) :
    Outputs p (jsonEnd bracket p) ∧ (p.isEnd = false → (jsonEnd bracket p).isEnd = false) := by
  unfold jsonEnd
  split_ifs
  · exact ⟨.refl p, id⟩
  · have hflags : Outputs p { p with depth := p.depth - 1, isStart := false, isEnd := true } :=
      .of_same rfl rfl id
    obtain ⟨hline, hend⟩ :=
      outputs_jsonNewLine { p with depth := p.depth - 1, isStart := false, isEnd := true }
    have hbracket := wrote_jsonWrite
      { p with depth := p.depth - 1, isStart := false, isEnd := true }.jsonNewLine bracket
    exact ⟨(hflags.trans hline).trans hbracket.outputs, fun _ => hbracket.isEnd.trans hend⟩

theorem outputs_jsonAdd {write : StreamPrinter O → StreamPrinter O}
    (hwrite : ∀ q, Outputs q (write q) ∧ (write q).isEnd = q.isEnd) (p : StreamPrinter O)
    (key : Option CString) :
    Outputs p (jsonAdd write p key) ∧ (p.isEnd = false → (jsonAdd write p key).isEnd = false) := by
  unfold jsonAdd
  split_ifs
  · exact ⟨.refl p, id⟩
  · obtain ⟨hvalue, hend⟩ := outputs_jsonStartValue p key
    obtain ⟨hwrote, hsame⟩ := hwrite (p.jsonStartValue key)
    exact ⟨hvalue.trans hwrote, fun h => hsame.trans (hend h)⟩

/-- The flag that announces a closing bracket is down between any two calls. -/
theorem outputs_perform (p : StreamPrinter O) (call : Call) :
    Outputs p (p.perform call) ∧ (p.isEnd = false → (p.perform call).isEnd = false) := by
  have hwrite : ∀ (text : List Byte) (q : StreamPrinter O),
      Outputs q (q.jsonWrite text) ∧ (q.jsonWrite text).isEnd = q.isEnd := by
    intro text q
    have hwrote := wrote_jsonWrite q text
    exact ⟨hwrote.outputs, hwrote.isEnd⟩
  have hconvert : ∀ (s : List Byte) (escaping : Bool) (q : StreamPrinter O),
      Outputs q (q.jsonConvertAndWriteBuffer s escaping q.inputCCSID) ∧
        (q.jsonConvertAndWriteBuffer s escaping q.inputCCSID).isEnd = q.isEnd := by
    intro s escaping q
    have hwrote := wrote_jsonConvertAndWriteBuffer q s escaping
    exact ⟨hwrote.outputs, hwrote.isEnd⟩
  have hquoted : ∀ (s : List Byte) (q : StreamPrinter O),
      Outputs q (q.jsonWriteQuotedUnterminatedString s) ∧
        (q.jsonWriteQuotedUnterminatedString s).isEnd = q.isEnd := by
    intro s q
    have hwrote := wrote_quoted writtenDouble q s
    exact ⟨hwrote.outputs, hwrote.isEnd⟩
  have hmulti : ∀ (multi : Bool) (q : StreamPrinter O),
      Outputs q { q.jsonWrite (ascii "\"") with isInMultipartString := multi } ∧
        (q.jsonWrite (ascii "\"")).isEnd = q.isEnd := by
    intro multi q
    have hwrote := wrote_jsonWrite q (ascii "\"")
    exact ⟨hwrote.outputs.trans (.of_same rfl rfl id), hwrote.isEnd⟩
  have hpart : ∀ s : List Byte, Outputs p (p.jsonAppendUnterminatedStringPart s) ∧
      (p.isEnd = false → (p.jsonAppendUnterminatedStringPart s).isEnd = false) := by
    intro s
    unfold jsonAppendUnterminatedStringPart
    split_ifs
    · exact ⟨.refl p, id⟩
    · exact ⟨.refl p, id⟩
    · exact ⟨(hconvert s true p).1, (hconvert s true p).2.trans⟩
  cases call with
  | jsonPrinterReset => exact ⟨.of_same rfl rfl id, id⟩
  | jsonEnablePrettyPrint => exact ⟨.of_same rfl rfl id, id⟩
  | jsonSetIOErrorFlag => exact ⟨.of_same rfl rfl fun _ => rfl, id⟩
  | jsonStartObject key => exact outputs_jsonStart _ p key
  | jsonEndObject => exact outputs_jsonEnd _ p
  | jsonStartArray key => exact outputs_jsonStart _ p key
  | jsonEndArray => exact outputs_jsonEnd _ p
  | jsonAddString key value => exact outputs_jsonAdd (hquoted value.bytes) p key
  | jsonAddJSONString key value => exact outputs_jsonAdd (hconvert value.bytes false) p key
  | jsonAddUnterminatedJSONString key value => exact outputs_jsonAdd (hconvert value false) p key
  | jsonAddUnterminatedString key value => exact outputs_jsonAdd (hquoted value) p key
  | jsonAddLimitedString key value => exact outputs_jsonAdd (hquoted _) p key
  | jsonStartMultipartString key => exact outputs_jsonAdd (hmulti true) p key
  | jsonAppendStringPart s => exact hpart s.bytes
  | jsonAppendUnterminatedStringPart value => exact hpart value
  | jsonEndMultipartString =>
    show Outputs p p.jsonEndMultipartString ∧ (_ → p.jsonEndMultipartString.isEnd = false)
    unfold jsonEndMultipartString
    split_ifs
    · exact ⟨.refl p, id⟩
    · exact ⟨.refl p, id⟩
    · exact ⟨(hmulti false p).1, (hmulti false p).2.trans⟩
  | jsonAddBoolean key value => exact outputs_jsonAdd (hwrite _) p key
  | jsonAddNull key => exact outputs_jsonAdd (hwrite _) p key
  | jsonAddUInt key value => exact outputs_jsonAdd (hwrite _) p key
  | jsonAddInt key value => exact outputs_jsonAdd (hwrite _) p key
  | jsonAddInt64 key value => exact outputs_jsonAdd (hwrite _) p key
  | jsonAddDouble key value => exact outputs_jsonAdd (hwrite _) p key

theorem outputs_performAll (calls : List Call) : ∀ p : StreamPrinter O,
    Outputs p (p.performAll calls) ∧ (p.isEnd = false → (p.performAll calls).isEnd = false) := by
  induction calls with
  | nil => exact fun p => ⟨.refl p, id⟩
  | cons call calls ih =>
    intro p
    obtain ⟨hstep, hend⟩ := outputs_perform p call
    obtain ⟨hrest, hends⟩ := ih (p.perform call)
    exact ⟨hstep.trans hrest, fun h => hends (hend h)⟩

/-! Fresh and reset printers -/

theorem Made.at {p : StreamPrinter O} (h : Made p) : p.flags.At 0 .first := by
  cases h with
  | makeJsonPrinter => exact ⟨rfl, rfl, rfl, rfl⟩
  | makeUtf8JsonPrinter => exact ⟨rfl, rfl, rfl, rfl⟩
  | makeCustomJsonPrinter => exact ⟨rfl, rfl, rfl, rfl⟩
  | makeCustomUtf8JsonPrinter => exact ⟨rfl, rfl, rfl, rfl⟩
  | makeCustomNativeJsonPrinter => exact ⟨rfl, rfl, rfl, rfl⟩

/-- A reset leaves one flag as it is, but that is down. -/
theorem Ready.at {p : StreamPrinter O} (h : Ready p) : p.flags.At 0 .first := by
  induction h with
  | made h => exact h.at
  | reset h calls =>
    have hend := h.at.isEnd
    exact ⟨rfl, rfl, rfl, (outputs_performAll calls _).2 hend⟩
  | pretty _ ih => exact ⟨ih.depth, ih.isFirstLine, ih.isStart, ih.isEnd⟩

/-! Doubles that do not fit -/

/-- The bytes of a text that are no white space. -/
def solid (text : List Byte) : ℕ := text.countP fun c => !isWhite c

theorem solid_append (a b : List Byte) : solid (a ++ b) = solid a + solid b := List.countP_append

/-- Texts of the same tokens differ in white space only. -/
theorem Written.solid_eq {pretty : Bool} {tokens : List Token} {text : List Byte}
    (h : Written pretty tokens text) : solid text = (tokens.map fun t => solid t.text).sum := by
  induction h with
  | nil => rfl
  | white _ hc _ ih =>
    rw [← ih]
    exact List.countP_cons_of_neg (by simp [hc])
  | token t _ ih => rw [solid_append, ih, List.map_cons, List.sum_cons]

section

variable (s : Setup O) (F : BitVec 64 → List Byte) (pretty : Bool)

/-- The bytes of the doubles, apart from all the others. -/
def Weighed (d : Document) : Prop := ∀ depth,
  solid (text (s.style F) pretty depth d) =
    solid (text (s.style fun _ => []) pretty depth d) + (d.doubles.map fun v => solid (F v)).sum

theorem weighed_members {members : List (CString × Document)}
    (ih : ∀ m ∈ members, Weighed s F pretty m.2) (depth : ℕ) : ∀ layout,
    solid (memberText (s.style F) pretty depth layout members) =
      solid (memberText (s.style fun _ => []) pretty depth layout members) +
        ((Document.memberDoubles members).map fun v => solid (F v)).sum := by
  induction members with
  | nil =>
    intro layout
    rw [memberText, memberText]
    rfl
  | cons m members ihs =>
    obtain ⟨key, value⟩ := m
    intro layout
    have hvalue := ih (key, value) List.mem_cons_self depth
    have hrest := ihs (fun m hm => ih m (List.mem_cons_of_mem _ hm)) .between
    have hkey : keyText (s.style F) pretty (some key) = keyText (s.style fun _ => []) pretty (some key) :=
      rfl
    rw [memberText, memberText, Document.memberDoubles, List.map_append, List.sum_append]
    simp only [solid_append, hvalue, hrest, hkey]
    omega

theorem weighed_elements {elements : List Document} (ih : ∀ e ∈ elements, Weighed s F pretty e)
    (depth : ℕ) : ∀ layout,
    solid (elementText (s.style F) pretty depth layout elements) =
      solid (elementText (s.style fun _ => []) pretty depth layout elements) +
        ((Document.elementDoubles elements).map fun v => solid (F v)).sum := by
  induction elements with
  | nil =>
    intro layout
    rw [elementText, elementText]
    rfl
  | cons value elements ihs =>
    intro layout
    have hvalue := ih value List.mem_cons_self depth
    have hrest := ihs (fun e he => ih e (List.mem_cons_of_mem _ he)) .between
    rw [elementText, elementText, Document.elementDoubles, List.map_append, List.sum_append]
    simp only [solid_append, hvalue, hrest]
    omega

theorem weighed (d : Document) : Weighed s F pretty d := by
  induction d using Document.parts_induction with
  | scalar scalar =>
    intro depth
    rw [text, text]
    cases scalar with
    | double value =>
      show solid (F value) = solid [] + (solid (F value) + 0)
      rw [add_zero]
      exact (zero_add _).symm
    | _ => rfl
  | object members ih =>
    intro depth
    have hmembers := weighed_members s F pretty ih (depth + 1) .start
    rw [text, text, Document.doubles]
    simp only [solid_append, hmembers]
    omega
  | array elements ih =>
    intro depth
    have helements := weighed_elements s F pretty ih (depth + 1) .start
    rw [text, text, Document.doubles]
    simp only [solid_append, helements]
    omega

end

theorem solid_formatF (value : BitVec 64) : solid (formatF value) = (formatF value).length := by
  apply List.countP_eq_length.mpr
  apply forall_mem_formatF (P := fun c => (!isWhite c) = true)
  · decide
  · decide
  · decide
  · decide
  · decide

theorem solid_writtenDouble (value : BitVec 64) :
    solid (writtenDouble value) = min 63 (formatF value).length := by
  have hall : ∀ c ∈ formatF value, (!isWhite c) = true := by
    have hcount := solid_formatF value
    exact List.countP_eq_length.mp hcount
  have htake : solid (writtenDouble value) = (writtenDouble value).length := by
    apply List.countP_eq_length.mpr
    exact fun c hc => hall c (List.mem_of_mem_take hc)
  rw [htake]
  exact List.length_take

/-- The text of a double fits in the buffer of 64 bytes, with the terminator. -/
def DoubleFits (value : BitVec 64) : Prop := (formatF value).length ≤ 63

instance : DecidablePred DoubleFits :=
  fun value => inferInstanceAs (Decidable ((formatF value).length ≤ 63))

theorem writtenDouble_of_fits {value : BitVec 64} (h : DoubleFits value) :
    writtenDouble value = formatF value := List.take_of_length_le h

theorem fits_of_solid_le {value : BitVec 64}
    (h : solid (formatF value) ≤ solid (writtenDouble value)) : DoubleFits value := by
  rw [solid_formatF, solid_writtenDouble] at h
  exact h.trans (min_le_left _ _)

/-- Two lists of numbers with the same sum, each at most the other's, are the same. -/
theorem le_of_sum_eq {α : Type} {f g : α → ℕ} {l : List α} (hle : ∀ a ∈ l, f a ≤ g a)
    (hsum : (l.map f).sum = (l.map g).sum) : ∀ a ∈ l, g a ≤ f a := by
  by_contra hsome
  push Not at hsome
  obtain ⟨a, ha, hlt⟩ := hsome
  have hstrict := List.sum_lt_sum f g hle ⟨a, ha, hlt⟩
  omega

section

variable {s : Setup O} {F G : BitVec 64 → List Byte} {pretty : Bool}

theorem memberText_congr {members : List (CString × Document)}
    (ih : ∀ m ∈ members, (∀ v ∈ m.2.doubles, F v = G v) →
      ∀ depth, text (s.style F) pretty depth m.2 = text (s.style G) pretty depth m.2)
    (h : ∀ v ∈ Document.memberDoubles members, F v = G v) (depth : ℕ) : ∀ layout,
    memberText (s.style F) pretty depth layout members =
      memberText (s.style G) pretty depth layout members := by
  induction members with
  | nil =>
    intro layout
    rw [memberText, memberText]
  | cons m members ihs =>
    obtain ⟨key, value⟩ := m
    intro layout
    rw [Document.memberDoubles] at h
    have hvalue := ih (key, value) List.mem_cons_self
      (fun v hv => h v (List.mem_append_left _ hv)) depth
    have hrest := ihs (fun m hm => ih m (List.mem_cons_of_mem _ hm))
      (fun v hv => h v (List.mem_append_right _ hv)) .between
    have hkey : keyText (s.style F) pretty (some key) = keyText (s.style G) pretty (some key) := rfl
    rw [memberText, memberText, hvalue, hrest, hkey]

theorem elementText_congr {elements : List Document}
    (ih : ∀ e ∈ elements, (∀ v ∈ e.doubles, F v = G v) →
      ∀ depth, text (s.style F) pretty depth e = text (s.style G) pretty depth e)
    (h : ∀ v ∈ Document.elementDoubles elements, F v = G v) (depth : ℕ) : ∀ layout,
    elementText (s.style F) pretty depth layout elements =
      elementText (s.style G) pretty depth layout elements := by
  induction elements with
  | nil =>
    intro layout
    rw [elementText, elementText]
  | cons value elements ihs =>
    intro layout
    rw [Document.elementDoubles] at h
    have hvalue := ih value List.mem_cons_self (fun v hv => h v (List.mem_append_left _ hv)) depth
    have hrest := ihs (fun e he => ih e (List.mem_cons_of_mem _ he))
      (fun v hv => h v (List.mem_append_right _ hv)) .between
    rw [elementText, elementText, hvalue, hrest]

/-- How other doubles would be written makes no difference. -/
theorem text_congr (d : Document) : (∀ v ∈ d.doubles, F v = G v) →
    ∀ depth, text (s.style F) pretty depth d = text (s.style G) pretty depth d := by
  induction d using Document.parts_induction with
  | scalar scalar =>
    intro h depth
    rw [text, text]
    cases scalar with
    | double value => exact h value (by rw [Document.doubles]; exact List.mem_cons_self)
    | _ => rfl
  | object members ih =>
    intro h depth
    rw [Document.doubles] at h
    rw [text, text, memberText_congr ih h (depth + 1) .start]
  | array elements ih =>
    intro h depth
    rw [Document.doubles] at h
    rw [text, text, elementText_congr ih h (depth + 1) .start]

end

theorem written_tokens_iff (s : Setup O) (pretty : Bool) (d : Document) :
    Written pretty ((s.style formatF).tokens d) (text (s.style writtenDouble) pretty 0 d) ↔
      ∀ v ∈ d.doubles, DoubleFits v := by
  have hfull : Written pretty ((s.style formatF).tokens d) (text (s.style formatF) pretty 0 d) :=
    written_text d 0
  constructor
  · intro h
    have hwritten := weighed s writtenDouble pretty d 0
    have hformat := weighed s formatF pretty d 0
    have hsolid : solid (text (s.style writtenDouble) pretty 0 d) =
        solid (text (s.style formatF) pretty 0 d) := h.solid_eq.trans hfull.solid_eq.symm
    have hle : ∀ v ∈ d.doubles, solid (writtenDouble v) ≤ solid (formatF v) := by
      intro v _
      rw [solid_writtenDouble, solid_formatF]
      exact min_le_right _ _
    have hge := le_of_sum_eq hle (by omega)
    exact fun v hv => fits_of_solid_le (hge v hv)
  · intro h
    rw [text_congr d fun v hv => writtenDouble_of_fits (h v hv)]
    exact hfull

/-- The output got the value's tokens. -/
def TokensWritten (written : O → List Byte) (p : StreamPrinter O) (d : Document) : Prop :=
  ∃ text, written (p.performAll (d.calls none)).customObject = written p.customObject ++ text ∧
    Written p.prettyPrint ((p.setup.style formatF).tokens d) text

theorem Ready.tokensWritten {p : StreamPrinter O} (h : p.Ready) {written : O → List Byte}
    (hwritten : p.writeMethod.Appends written) (d : Document)
    (hok : (p.performAll (d.calls none)).ioErrorFlag = false) :
    TokensWritten written p d ↔ ∀ v ∈ d.doubles, DoubleFits v := by
  obtain ⟨hemitted, -⟩ := printed d none fun _ => h.at
  have hrun := hemitted.writes (hemitted.ok hok)
  rw [hok] at hrun
  have happended := hrun.appended hwritten
  have hvalue : valueText p.setup 0 .first none d =
      text (p.setup.style writtenDouble) p.prettyPrint 0 d := by
    unfold valueText
    rw [separator, keyText, List.nil_append, List.nil_append]
    rfl
  rw [hvalue] at happended
  rw [← written_tokens_iff p.setup p.prettyPrint d]
  constructor
  · intro h
    obtain ⟨text, htext, htokens⟩ := h
    rw [happended] at htext
    rwa [List.append_cancel_left htext]
  · intro h
    exact ⟨_, happended, h⟩

/-- From a fresh or reset printer, the calls that describe a value write its tokens just if every
double fits; and in any run, nothing is written after an error. -/
theorem tokensWritten_iff {p : StreamPrinter O} (hready : p.Ready) {written : O → List Byte}
    (hwritten : p.writeMethod.Appends written) (d : Document) :
    ((p.performAll (d.calls none)).ioErrorFlag = false →
        (TokensWritten written p d ↔ ∀ v ∈ d.doubles, DoubleFits v)) ∧
      ∀ (q : StreamPrinter O) (calls : List Call), Outputs q (q.performAll calls) := by
  constructor
  · exact fun hok => hready.tokensWritten hwritten d hok
  · exact fun q calls => (outputs_performAll calls q).1

def collectingPrinter : StreamPrinter (List Byte) :=
  makeCustomNativeJsonPrinter (fun object text => (object ++ text, false)) [] (fun _ _ => none)
    CCSID_UTF_8

theorem collectingPrinter_appends : collectingPrinter.writeMethod.Appends id :=
  fun _ _ _ => rfl

def exampleDocument : Document :=
  .object [(ofBytes (ascii "a"), .array [.scalar (.int 1), .scalar (.boolean 0), .object []]),
    (ofBytes (ascii "b"), .scalar (.multipartString [.terminated (ofBytes (ascii "x")),
      .unterminated (ascii "y\n")])),
    (ofBytes (ascii "c"), .scalar (.double 0x3FF8000000000000))]

theorem exampleDocument_doubles : exampleDocument.doubles = [0x3FF8000000000000] := by rfl

theorem tokensWritten_iff_pretty :
    TokensWritten id collectingPrinter.jsonEnablePrettyPrint exampleDocument := by
  have hfits : ∀ v ∈ exampleDocument.doubles, DoubleFits v := by
    rw [exampleDocument_doubles, List.forall_mem_singleton]
    decide +kernel
  have hready : collectingPrinter.jsonEnablePrettyPrint.Ready :=
    .pretty (.made (.makeCustomNativeJsonPrinter _ _ _ _))
  have hok : (collectingPrinter.jsonEnablePrettyPrint.performAll
      (exampleDocument.calls none)).ioErrorFlag = false := by
    decide +kernel
  have hwritten := (tokensWritten_iff hready collectingPrinter_appends exampleDocument).1 hok
  exact hwritten.mpr hfits

/-- The number of 101 digits loses all but the first 63. -/
theorem not_tokensWritten_double : collectingPrinter.Ready ∧
    (collectingPrinter.performAll
      ((Document.scalar (.double 0x54B249AD2594C37D)).calls none)).ioErrorFlag = false ∧
    ¬TokensWritten id collectingPrinter (.scalar (.double 0x54B249AD2594C37D)) := by
  have hready : collectingPrinter.Ready := .made (.makeCustomNativeJsonPrinter _ _ _ _)
  have hok : (collectingPrinter.performAll
      ((Document.scalar (.double 0x54B249AD2594C37D)).calls none)).ioErrorFlag = false := by
    decide +kernel
  refine ⟨hready, hok, ?_⟩
  rw [hready.tokensWritten collectingPrinter_appends _ hok, Document.doubles,
    List.forall_mem_singleton]
  decide +kernel

end StreamPrinter
end ZoweCommon
