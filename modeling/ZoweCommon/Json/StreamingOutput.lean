import ZoweCommon.Json.StreamingText

/-! What a printer hands to its output. -/
namespace ZoweCommon

open CLibrary CString JsonPrinter

/-- Without an error, exactly the text is added to what was written. A file takes as much of it as
`write` says. -/
def WriteMethod.Appends {O : Type} (written : O → List Byte) : WriteMethod O → Prop
  | .fd write => ∀ file text, 0 ≤ (write file text).2 →
      written (write file text).1 = written file ++ text.take (write file text).2.toNat
  | .custom customWrite => ∀ object text, (customWrite object text).2 = false →
      written (customWrite object text).1 = written object ++ text

namespace StreamPrinter

variable {O : Type}

theorem written_writeLoop {written : O → List Byte} {write : O → List Byte → O × ℤ}
    (hwrite : (WriteMethod.fd write).Appends written) :
    ∀ (attempts : ℕ) (file : O) (text : List Byte), (writeLoop write attempts file text).2 = false →
      written (writeLoop write attempts file text).1 = written file ++ text := by
  intro attempts
  induction attempts with
  | zero =>
    intro file text hok
    cases text with
    | nil =>
      rw [writeLoop, List.append_nil]
    | cons c text =>
      rw [writeLoop] at hok
      dsimp only at hok
      split_ifs at hok
  | succ attempts ih =>
    intro file text hok
    cases text with
    | nil =>
      rw [writeLoop, List.append_nil]
    | cons c text =>
      rw [writeLoop] at hok ⊢
      dsimp only at hok ⊢
      split_ifs at hok ⊢ with herror
      have hsome := hwrite file (c :: text) (by omega)
      have hrest := ih _ _ hok
      rw [hrest, hsome, List.append_assoc, List.take_append_drop]

theorem written_writeOut {written : O → List Byte} {method : WriteMethod O}
    (hmethod : method.Appends written) {object : O} {text : List Byte}
    (hok : (writeOut method object text).2 = false) :
    written (writeOut method object text).1 = written object ++ text := by
  cases method with
  | fd write => exact written_writeLoop hmethod 10 object text hok
  | custom customWrite => exact hmethod object text hok

/-! What does not change while a printer writes -/

/-- How a printer was set up. -/
structure Setup (O : Type) where
  writeMethod : WriteMethod O
  convertCharset : ℤ → List Byte → Option (List Byte)
  mode : JsonCharsetConversion
  inputCCSID : ℤ
  prettyPrint : Bool

def setup (p : StreamPrinter O) : Setup O where
  writeMethod := p.writeMethod
  convertCharset := p.convertCharset
  mode := p.mode
  inputCCSID := p.inputCCSID
  prettyPrint := p.prettyPrint

/-- A user's text in the character set of the output. One that cannot be converted is left out. -/
def Setup.convert (s : Setup O) (text : List Byte) : List Byte :=
  match s.mode with
  | .JSON_MODE_NATIVE_CHARSET => text
  | .JSON_MODE_CONVERT_TO_UTF8 =>
    if s.inputCCSID ≠ CCSID_UTF_8 then (s.convertCharset s.inputCCSID text).getD [] else text

def Setup.style (s : Setup O) (formatDouble : BitVec 64 → List Byte) : Style where
  mode := s.mode
  convert := s.convert
  formatDouble := formatDouble

/-- The state of the layout. -/
structure Flags where
  depth : ℤ
  isStart : Bool
  isEnd : Bool
  isFirstLine : Bool
  isInMultipartString : Bool

def flags (p : StreamPrinter O) : Flags where
  depth := p.depth
  isStart := p.isStart
  isEnd := p.isEnd
  isFirstLine := p.isFirstLine
  isInMultipartString := p.isInMultipartString

/-- A text is handed to the output piece by piece; after an error, nothing of it is. -/
inductive Writes (method : WriteMethod O) : O → List Byte → O → Bool → Prop
  | nil (object : O) : Writes method object [] object false
  | piece {object last : O} {text rest : List Byte} {error : Bool}
      (hok : (writeOut method object text).2 = false)
      (hrest : Writes method (writeOut method object text).1 rest last error) :
      Writes method object (text ++ rest) last error
  | error {object : O} {text rest : List Byte} (herror : (writeOut method object text).2 = true) :
      Writes method object (text ++ rest) (writeOut method object text).1 true

namespace Writes

variable {method : WriteMethod O} {object middle last : O} {a b : List Byte} {error : Bool}

theorem append (ha : Writes method object a middle false) (hb : Writes method middle b last error) :
    Writes method object (a ++ b) last error := by
  generalize hok : false = ok at ha
  induction ha with
  | nil => exact hb
  | piece hpiece _ ih =>
    rw [List.append_assoc]
    exact .piece hpiece (ih hb hok)
  | error => exact absurd hok Bool.false_ne_true

/-- What would come after an error makes no difference. -/
theorem append_of_error (ha : Writes method object a last true) (b : List Byte) :
    Writes method object (a ++ b) last true := by
  generalize hstop : true = error at ha
  induction ha with
  | nil => exact absurd hstop.symm Bool.false_ne_true
  | piece hpiece _ ih =>
    rw [List.append_assoc]
    exact .piece hpiece (ih hstop)
  | error herror =>
    rw [List.append_assoc]
    exact .error herror

/-- Without an error, all of the text is written. -/
theorem appended {written : O → List Byte} (h : Writes method object a last false)
    (hwritten : method.Appends written) : written last = written object ++ a := by
  generalize hok : false = ok at h
  induction h with
  | nil => exact (List.append_nil _).symm
  | piece hpiece _ ih =>
    rw [ih hok, written_writeOut hwritten hpiece, List.append_assoc]
  | error => exact absurd hok Bool.false_ne_true

end Writes

structure Emitted (p : StreamPrinter O) (text : List Byte) (q : StreamPrinter O) : Prop where
  setup : q.setup = p.setup
  stopped : p.ioErrorFlag = true → q.ioErrorFlag = true ∧ q.customObject = p.customObject
  writes : p.ioErrorFlag = false →
    Writes p.writeMethod p.customObject text q.customObject q.ioErrorFlag

namespace Emitted

variable {p q r : StreamPrinter O} {a b text : List Byte}

theorem ok (h : Emitted p text q) (hok : q.ioErrorFlag = false) : p.ioErrorFlag = false := by
  by_contra hstop
  have hq := (h.stopped (by simpa using hstop)).1
  rw [hok] at hq
  exact absurd hq Bool.false_ne_true

theorem trans (ha : Emitted p a q) (hb : Emitted q b r) : Emitted p (a ++ b) r := by
  constructor
  · exact hb.setup.trans ha.setup
  · intro hstop
    have hq := ha.stopped hstop
    have hr := hb.stopped hq.1
    exact ⟨hr.1, hr.2.trans hq.2⟩
  · intro hok
    have hfirst := ha.writes hok
    cases hq : q.ioErrorFlag with
    | true =>
      have hr := hb.stopped hq
      rw [hq] at hfirst
      rw [hr.1, hr.2]
      exact hfirst.append_of_error b
    | false =>
      have hmethod : q.writeMethod = p.writeMethod := congrArg Setup.writeMethod ha.setup
      have hsecond := hb.writes hq
      rw [hq] at hfirst
      rw [hmethod] at hsecond
      exact hfirst.append hsecond

/-- A change of the flags writes nothing. -/
theorem of_same (hsetup : q.setup = p.setup) (hobject : q.customObject = p.customObject)
    (herror : q.ioErrorFlag = p.ioErrorFlag) : Emitted p [] q := by
  constructor
  · exact hsetup
  · intro hstop
    rw [herror]
    exact ⟨hstop, hobject⟩
  · intro hok
    rw [hobject, herror, hok]
    exact .nil _

theorem refl (p : StreamPrinter O) : Emitted p [] p := .of_same rfl rfl rfl

theorem of_stopped (h : p.ioErrorFlag = true) : Emitted p text p := by
  constructor
  · rfl
  · exact fun h => ⟨h, rfl⟩
  · intro hok
    rw [h] at hok
    exact absurd hok.symm Bool.false_ne_true

end Emitted

/-- The same, where the flags are left alone. -/
structure Wrote (p : StreamPrinter O) (text : List Byte) (q : StreamPrinter O) : Prop
    extends Emitted p text q where
  flags : q.flags = p.flags

namespace Wrote

variable {p q r : StreamPrinter O} {a b text : List Byte}

theorem trans (ha : Wrote p a q) (hb : Wrote q b r) : Wrote p (a ++ b) r :=
  ⟨ha.toEmitted.trans hb.toEmitted, hb.flags.trans ha.flags⟩

theorem refl (p : StreamPrinter O) : Wrote p [] p := ⟨.refl p, rfl⟩

theorem of_stopped (h : p.ioErrorFlag = true) : Wrote p text p := ⟨.of_stopped h, rfl⟩

end Wrote

/-! Writing -/

theorem wrote_jsonWriteBufferInternal (p : StreamPrinter O) (text : List Byte) :
    Wrote p text (p.jsonWriteBufferInternal text) := by
  unfold jsonWriteBufferInternal
  by_cases hstop : p.ioErrorFlag = true
  · rw [if_pos hstop]
    exact .of_stopped hstop
  · rw [if_neg hstop]
    constructor
    · constructor
      · rfl
      · exact fun h => absurd h hstop
      · intro _
        have hpiece : Writes p.writeMethod p.customObject (text ++ [])
            (writeOut p.writeMethod p.customObject text).1
            (writeOut p.writeMethod p.customObject text).2 := by
          cases herror : (writeOut p.writeMethod p.customObject text).2 with
          | true => exact .error herror
          | false => exact .piece herror (.nil _)
        rwa [List.append_nil] at hpiece
    · rfl

theorem wrote_writeChunk (p : StreamPrinter O) (chunk : List Byte) :
    Wrote p chunk (p.writeChunk chunk) := by
  unfold writeChunk
  by_cases hchunk : chunk.length > 0
  · rw [if_pos hchunk]
    exact wrote_jsonWriteBufferInternal p chunk
  · rw [if_neg hchunk]
    have hnil : chunk = [] := List.length_eq_zero_iff.mp (by omega)
    rw [hnil]
    exact .refl p

theorem wrote_writeBufferWithEscapingFrom (text : List Byte) :
    ∀ (p : StreamPrinter O) (chunk : List Byte),
      Wrote p (chunk ++ escapeUtf8 text) (p.writeBufferWithEscapingFrom chunk text) := by
  induction text using escapeUtf8.induct with
  | case1 =>
    intro p chunk
    rw [escapeUtf8, List.append_nil, writeBufferWithEscapingFrom]
    exact wrote_writeChunk p chunk
  | case2 c text hescape ih =>
    intro p chunk
    have hchunk := wrote_writeChunk p chunk
    have hsequence := hchunk.trans (wrote_jsonWriteBufferInternal _
      (escapeSequence (UTF8_GET_NEXT_CHAR c).1))
    have hrest := hsequence.trans (ih _ [])
    rw [writeBufferWithEscapingFrom, escapeUtf8]
    dsimp only
    rw [if_pos hescape, if_pos hescape]
    simpa only [List.append_assoc, List.nil_append] using hrest
  | case3 c text hescape ih =>
    intro p chunk
    have hrest := ih p (chunk ++ (c :: text).take (UTF8_GET_NEXT_CHAR c).2)
    rw [writeBufferWithEscapingFrom, escapeUtf8]
    dsimp only
    rw [if_neg hescape, if_neg hescape]
    simpa only [List.append_assoc] using hrest

theorem wrote_jsonWriteEscapedString (p : StreamPrinter O) (s : List Byte) :
    Wrote p (s.flatMap escapeNative) (p.jsonWriteEscapedString s) := by
  unfold jsonWriteEscapedString
  by_cases hspecial : (s.filter isSpecialChar).length > 0
  · rw [if_pos hspecial]
    exact wrote_jsonWriteBufferInternal p _
  · rw [if_neg hspecial, flatMap_escapeNative hspecial]
    exact wrote_jsonWriteBufferInternal p s

theorem wrote_jsonWrite (p : StreamPrinter O) (text : List Byte) : Wrote p text (p.jsonWrite text) := by
  unfold jsonWrite jsonConvertAndWriteBuffer
  by_cases hstop : p.ioErrorFlag = true
  · rw [if_pos hstop]
    exact .of_stopped hstop
  · rw [if_neg hstop]
    cases p.mode with
    | JSON_MODE_NATIVE_CHARSET => exact wrote_jsonWriteBufferInternal p text
    | JSON_MODE_CONVERT_TO_UTF8 => exact wrote_jsonWriteBufferInternal p text

/-- A user's text is converted, and escaped where that is wanted. -/
theorem wrote_jsonConvertAndWriteBuffer (p : StreamPrinter O) (s : List Byte) (escaping : Bool) :
    Wrote p (if escaping then escape p.mode (p.setup.convert s) else p.setup.convert s)
      (p.jsonConvertAndWriteBuffer s escaping p.inputCCSID) := by
  unfold jsonConvertAndWriteBuffer
  by_cases hstop : p.ioErrorFlag = true
  · rw [if_pos hstop]
    exact .of_stopped hstop
  rw [if_neg hstop]
  cases hmode : p.mode with
  | JSON_MODE_NATIVE_CHARSET =>
    have hconvert : p.setup.convert s = s := by
      unfold Setup.convert setup
      dsimp only
      rw [hmode]
    rw [hconvert]
    cases escaping with
    | true => exact wrote_jsonWriteEscapedString p s
    | false => exact wrote_jsonWriteBufferInternal p s
  | JSON_MODE_CONVERT_TO_UTF8 =>
    have hconvert : p.setup.convert s =
        (if p.inputCCSID ≠ CCSID_UTF_8 then p.convertToUtf8 s p.inputCCSID else some s).getD [] := by
      unfold Setup.convert setup convertToUtf8
      dsimp only
      rw [hmode]
      dsimp only
      split_ifs
      · rfl
      · rfl
    rw [hconvert]
    dsimp only
    cases (if p.inputCCSID ≠ CCSID_UTF_8 then p.convertToUtf8 s p.inputCCSID else some s) with
    | none =>
      have hnone : (if escaping then escape .JSON_MODE_CONVERT_TO_UTF8 [] else []) = ([] : List Byte) := by
        rw [escape, escapeUtf8]
        exact ite_self []
      rw [Option.getD_none, hnone]
      exact .refl p
    | some s =>
      rw [Option.getD_some]
      cases escaping with
      | true => exact wrote_writeBufferWithEscapingFrom s p []
      | false => exact wrote_jsonWriteBufferInternal p s

section

variable (F : BitVec 64 → List Byte)

theorem wrote_quoted (p : StreamPrinter O) (s : List Byte) :
    Wrote p ((p.setup.style F).quoted s) (p.jsonWriteQuotedUnterminatedString s) := by
  have hopen := wrote_jsonWrite p (ascii "\"")
  have hbody := hopen.trans (wrote_jsonConvertAndWriteBuffer _ s true)
  have hclose := hbody.trans (wrote_jsonWrite _ (ascii "\""))
  rw [hopen.setup] at hclose
  have hmode : (p.jsonWrite (ascii "\"")).mode = p.mode := congrArg Setup.mode hopen.setup
  rw [hmode] at hclose
  exact hclose

theorem wrote_key (p : StreamPrinter O) (key : Option CString) :
    Wrote p (keyText (p.setup.style F) p.prettyPrint key) (p.jsonWriteKeyAndSemicolon key) := by
  cases key with
  | none => exact .refl p
  | some key =>
    have hkey := wrote_quoted F p key.bytes
    have hpretty : (p.jsonWriteQuotedString key).prettyPrint = p.prettyPrint :=
      congrArg Setup.prettyPrint hkey.setup
    unfold jsonWriteKeyAndSemicolon
    dsimp only
    rw [hpretty, keyText]
    cases p.prettyPrint with
    | true => exact hkey.trans (wrote_jsonWrite _ _)
    | false => exact hkey.trans (wrote_jsonWrite _ _)

end

end StreamPrinter
end ZoweCommon
