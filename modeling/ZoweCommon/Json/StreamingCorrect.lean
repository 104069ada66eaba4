import ZoweCommon.Json.StreamingOutput

/-! The printer writes the text of the value that is described to it. -/
namespace ZoweCommon
namespace StreamPrinter

open CLibrary CString JsonPrinter

variable {O : Type}

/-! The layout -/

/-- Where a printer stands. -/
structure Flags.At (f : Flags) (depth : ℕ) (layout : Layout) : Prop where
  depth : f.depth = depth
  isFirstLine : f.isFirstLine = decide (layout = .first)
  isStart : f.isStart = decide (layout = .first ∨ layout = .start)
  isEnd : f.isEnd = decide (layout = .finish)

theorem wrote_indent (n : ℕ) : ∀ p : StreamPrinter O,
    Wrote p (List.replicate n indentString).flatten
      ((fun p : StreamPrinter O => p.jsonWrite indentString)^[n] p) := by
  induction n with
  | zero => exact fun p => .refl p
  | succ n ih =>
    intro p
    rw [List.replicate_succ, List.flatten_cons]
    exact (wrote_jsonWrite p indentString).trans (ih _)

theorem wrote_newLine {p : StreamPrinter O} {depth : ℕ} (hdepth : p.depth = depth) :
    Wrote p (newLine p.prettyPrint depth)
      (if p.prettyPrint then (p.jsonWrite (ascii "\n")).jsonIndent else p) := by
  unfold newLine
  cases p.prettyPrint with
  | false => exact .refl p
  | true =>
    have hbreak := wrote_jsonWrite p (ascii "\n")
    have hindent : (p.jsonWrite (ascii "\n")).depth = depth :=
      (congrArg Flags.depth hbreak.flags).trans hdepth
    rw [if_pos rfl, if_pos rfl]
    unfold jsonIndent
    rw [hindent]
    exact hbreak.trans (wrote_indent depth _)

/-- After an opening bracket, a value, or the flag that announces a closing bracket, a new line
begins. -/
theorem emitted_jsonNewLine {p : StreamPrinter O} {depth : ℕ} {layout : Layout}
    (h : p.flags.At depth layout) (hlayout : layout ≠ .first) :
    Emitted p (separator p.prettyPrint depth layout) p.jsonNewLine ∧
      p.jsonNewLine.flags.At depth .between := by
  have hfirst : p.isFirstLine = decide (layout = .first) := h.isFirstLine
  have hstart : p.isStart = decide (layout = .first ∨ layout = .start) := h.isStart
  have hend : p.isEnd = decide (layout = .finish) := h.isEnd
  have hdepth : p.depth = depth := h.depth
  -- the flag that was up is taken down, or a comma is written
  have hstep : ∃ q : StreamPrinter O,
      q = (if p.isEnd then { p with isEnd := false }
        else if p.isStart then { p with isStart := false } else p.jsonWrite (ascii ",")) ∧
      Emitted p (if layout = .between then ascii "," else []) q ∧ q.flags.At depth .between := by
    cases layout with
    | first => exact absurd rfl hlayout
    | start =>
      refine ⟨{ p with isStart := false }, ?_, Emitted.of_same rfl rfl rfl, ⟨hdepth, hfirst, rfl, hend⟩⟩
      rw [if_neg (by simp [hend]), if_pos (by simp [hstart])]
    | between =>
      have hcomma := wrote_jsonWrite p (ascii ",")
      refine ⟨p.jsonWrite (ascii ","), ?_, hcomma.toEmitted, ?_⟩
      · rw [if_neg (by simp [hend]), if_neg (by simp [hstart])]
      · rw [hcomma.flags]
        exact h
    | finish =>
      refine ⟨{ p with isEnd := false }, ?_, Emitted.of_same rfl rfl rfl, ⟨hdepth, hfirst, hstart, rfl⟩⟩
      rw [if_pos (by simp [hend])]
  obtain ⟨q, hq, hemitted, hat⟩ := hstep
  have hpretty : q.prettyPrint = p.prettyPrint := congrArg Setup.prettyPrint hemitted.setup
  have hline := wrote_newLine hat.depth
  rw [hpretty] at hline
  have hnew : p.jsonNewLine =
      if q.prettyPrint then (q.jsonWrite (ascii "\n")).jsonIndent else q := by
    unfold jsonNewLine
    rw [← hq]
  have htext : separator p.prettyPrint depth layout =
      (if layout = .between then ascii "," else []) ++ newLine p.prettyPrint depth := by
    cases layout with
    | first => exact absurd rfl hlayout
    | start => rfl
    | between => rfl
    | finish => rfl
  rw [hnew, hpretty, htext]
  constructor
  · exact hemitted.trans hline.toEmitted
  · rw [hline.flags]
    exact hat

section

variable (F : BitVec 64 → List Byte)

theorem emitted_jsonStartValue {p : StreamPrinter O} {depth : ℕ} {layout : Layout}
    (h : p.flags.At depth layout) (key : Option CString) :
    Emitted p (separator p.prettyPrint depth layout ++
        keyText (p.setup.style F) p.prettyPrint key) (p.jsonStartValue key) ∧
      (p.jsonStartValue key).flags.At depth layout.next := by
  have hstep : ∃ q : StreamPrinter O,
      q = (if p.isFirstLine then { p with isFirstLine := false } else p.jsonNewLine) ∧
      Emitted p (separator p.prettyPrint depth layout) q ∧ q.flags.At depth layout.next := by
    have hfirst : p.isFirstLine = decide (layout = .first) := h.isFirstLine
    by_cases hlayout : layout = .first
    · rw [if_pos (by simp [hfirst, hlayout]), hlayout]
      refine ⟨_, rfl, Emitted.of_same rfl rfl rfl, ⟨h.depth, rfl, ?_, ?_⟩⟩
      · have hstart := h.isStart
        rw [hlayout] at hstart
        exact hstart
      · have hend := h.isEnd
        rw [hlayout] at hend
        exact hend
    · have hnext : layout.next = .between := by
        cases layout with
        | first => exact absurd rfl hlayout
        | start => rfl
        | between => rfl
        | finish => rfl
      rw [if_neg (by simp [hfirst, hlayout]), hnext]
      exact ⟨_, rfl, emitted_jsonNewLine h hlayout⟩
  obtain ⟨q, hq, hemitted, hat⟩ := hstep
  have hkey := wrote_key F q key
  have hpretty : q.prettyPrint = p.prettyPrint := congrArg Setup.prettyPrint hemitted.setup
  rw [hemitted.setup, hpretty] at hkey
  have hvalue : p.jsonStartValue key = q.jsonWriteKeyAndSemicolon key := by
    unfold jsonStartValue
    rw [← hq]
  rw [hvalue]
  constructor
  · exact hemitted.trans hkey.toEmitted
  · rw [hkey.flags]
    exact hat

/-- Where a printer stands, as long as there is no error. -/
def Stands (p : StreamPrinter O) (depth : ℕ) (layout : Layout) : Prop :=
  p.ioErrorFlag = false → p.flags.At depth layout

theorem emitted_jsonStart {p : StreamPrinter O} {depth : ℕ} {layout : Layout}
    (h : p.Stands depth layout) (key : Option CString) (bracket : List Byte) :
    Emitted p (separator p.prettyPrint depth layout ++
        keyText (p.setup.style F) p.prettyPrint key ++ bracket) (jsonStart bracket p key) ∧
      (jsonStart bracket p key).Stands (depth + 1) .start := by
  unfold jsonStart
  by_cases hstop : p.ioErrorFlag = true
  · rw [if_pos hstop]
    exact ⟨.of_stopped hstop, fun hok => absurd (hstop.symm.trans hok) (by simp)⟩
  rw [if_neg hstop]
  have hat := h (by simpa using hstop)
  obtain ⟨hvalue, hnext⟩ := emitted_jsonStartValue F hat key
  have hbracket := wrote_jsonWrite (p.jsonStartValue key) bracket
  rw [← hbracket.flags] at hnext
  obtain ⟨q, hq⟩ : ∃ q, q = (p.jsonStartValue key).jsonWrite bracket := ⟨_, rfl⟩
  rw [← hq] at hbracket hnext ⊢
  have hdepth : q.depth = depth := hnext.depth
  have hfirst : q.isFirstLine = decide (layout.next = .first) := hnext.isFirstLine
  constructor
  · have hopen : Emitted q [] { q with depth := q.depth + 1, isStart := true, isEnd := false } :=
      Emitted.of_same rfl rfl rfl
    have hall := (hvalue.trans hbracket.toEmitted).trans hopen
    rwa [List.append_nil] at hall
  · intro _
    constructor
    · show q.depth + 1 = _
      rw [hdepth, Nat.cast_add, Nat.cast_one]
    · show q.isFirstLine = _
      rw [hfirst]
      cases layout <;> rfl
    · rfl
    · rfl

theorem emitted_jsonEnd {p : StreamPrinter O} {depth : ℕ} {layout : Layout}
    (h : p.Stands (depth + 1) layout) (hlayout : layout ≠ .first) (bracket : List Byte) :
    Emitted p (newLine p.prettyPrint depth ++ bracket) (jsonEnd bracket p) ∧
      (jsonEnd bracket p).Stands depth .between := by
  unfold jsonEnd
  by_cases hstop : p.ioErrorFlag = true
  · rw [if_pos hstop]
    exact ⟨.of_stopped hstop, fun hok => absurd (hstop.symm.trans hok) (by simp)⟩
  rw [if_neg hstop]
  have hat := h (by simpa using hstop)
  have hdepth : p.depth = ((depth + 1 : ℕ) : ℤ) := hat.depth
  have hfirst : p.isFirstLine = decide (layout = .first) := hat.isFirstLine
  obtain ⟨q, hq⟩ : ∃ q : StreamPrinter O,
      q = { p with depth := p.depth - 1, isStart := false, isEnd := true } := ⟨_, rfl⟩
  have hfinish : q.flags.At depth .finish := by
    rw [hq]
    constructor
    · show p.depth - 1 = _
      rw [hdepth, Nat.cast_add, Nat.cast_one, add_sub_cancel_right]
    · show p.isFirstLine = _
      rw [hfirst]
      exact decide_eq_false hlayout
    · rfl
    · rfl
  have hclosing : Emitted p [] q := by
    rw [hq]
    exact Emitted.of_same rfl rfl rfl
  have hpretty : q.prettyPrint = p.prettyPrint := congrArg Setup.prettyPrint hclosing.setup
  obtain ⟨hline, hnext⟩ := emitted_jsonNewLine hfinish (by decide)
  have hbracket := wrote_jsonWrite q.jsonNewLine bracket
  have hall := (hclosing.trans hline).trans hbracket.toEmitted
  rw [hpretty] at hall
  rw [← hq]
  constructor
  · exact hall
  · intro _
    rw [hbracket.flags]
    exact hnext

/-- A value without parts is written after what goes before every value. -/
theorem emitted_jsonAdd {p : StreamPrinter O} {depth : ℕ} {layout : Layout}
    (h : p.Stands depth layout) (key : Option CString) {text : List Byte}
    {write : StreamPrinter O → StreamPrinter O}
    (hwrite : ∀ q : StreamPrinter O, q.setup = p.setup → Emitted q text (write q) ∧
      ∀ layout, q.flags.At depth layout → (write q).flags.At depth layout) :
    Emitted p (separator p.prettyPrint depth layout ++
        keyText (p.setup.style F) p.prettyPrint key ++ text) (jsonAdd write p key) ∧
      (jsonAdd write p key).Stands depth layout.next := by
  unfold jsonAdd
  by_cases hstop : p.ioErrorFlag = true
  · rw [if_pos hstop]
    exact ⟨.of_stopped hstop, fun hok => absurd (hstop.symm.trans hok) (by simp)⟩
  rw [if_neg hstop]
  have hat := h (by simpa using hstop)
  obtain ⟨hvalue, hnext⟩ := emitted_jsonStartValue F hat key
  obtain ⟨hemitted, hflags⟩ := hwrite (p.jsonStartValue key) hvalue.setup
  constructor
  · exact hvalue.trans hemitted
  · exact fun _ => hflags _ hnext

/-! Values -/

/-- A double as it is written: what does not fit in the buffer of 64 bytes is left out. -/
def writtenDouble (value : BitVec 64) : List Byte := snprintf 64 (formatF value)

theorem emitted_jsonAdd_wrote {p : StreamPrinter O} {depth : ℕ} {layout : Layout}
    (h : p.Stands depth layout) (key : Option CString) {text : List Byte}
    {write : StreamPrinter O → StreamPrinter O}
    (hwrite : ∀ q : StreamPrinter O, q.setup = p.setup → Wrote q text (write q)) :
    Emitted p (separator p.prettyPrint depth layout ++
        keyText (p.setup.style F) p.prettyPrint key ++ text) (jsonAdd write p key) ∧
      (jsonAdd write p key).Stands depth layout.next := by
  apply emitted_jsonAdd F h key
  intro q hq
  have hwrote := hwrite q hq
  constructor
  · exact hwrote.toEmitted
  · intro layout hat
    rw [hwrote.flags]
    exact hat

theorem wrote_parts (parts : List StringPart) : ∀ p : StreamPrinter O,
    (p.ioErrorFlag = false → p.isInMultipartString = true) →
    Wrote p (parts.flatMap fun part => (p.setup.style F).escaped part.bytes)
      (p.performAll (parts.map StringPart.call)) := by
  induction parts with
  | nil => exact fun p _ => .refl p
  | cons part parts ih =>
    intro p hmulti
    have hperform : p.perform part.call = p.jsonAppendUnterminatedStringPart part.bytes := by
      cases part <;> rfl
    have hpart : Wrote p ((p.setup.style F).escaped part.bytes) (p.perform part.call) := by
      rw [hperform]
      unfold jsonAppendUnterminatedStringPart
      by_cases hstop : p.ioErrorFlag = true
      · rw [if_pos hstop]
        exact .of_stopped hstop
      · rw [if_neg hstop, if_neg (by simp [hmulti (by simpa using hstop)])]
        exact wrote_jsonConvertAndWriteBuffer p part.bytes true
    have hrest := ih (p.perform part.call) (by
      intro hok
      have hsame : (p.perform part.call).isInMultipartString = p.isInMultipartString :=
        congrArg Flags.isInMultipartString hpart.flags
      rw [hsame]
      exact hmulti (hpart.ok hok))
    rw [hpart.setup] at hrest
    exact hpart.trans hrest

/-- The flag of a string of several parts has no part in the layout. -/
theorem Wrote.setMultipart {p q : StreamPrinter O} {text : List Byte} (h : Wrote p text q)
    (multi : Bool) : Emitted p text { q with isInMultipartString := multi } ∧
      ∀ depth layout, p.flags.At depth layout →
        { q with isInMultipartString := multi }.flags.At depth layout := by
  have hsame : Emitted q [] { q with isInMultipartString := multi } := Emitted.of_same rfl rfl rfl
  constructor
  · have hall := h.toEmitted.trans hsame
    rwa [List.append_nil] at hall
  · intro depth layout hat
    rw [← h.flags] at hat
    exact ⟨hat.depth, hat.isFirstLine, hat.isStart, hat.isEnd⟩

theorem emitted_jsonStartMultipartString {p : StreamPrinter O} {depth : ℕ} {layout : Layout}
    (h : p.Stands depth layout) (key : Option CString) :
    Emitted p (separator p.prettyPrint depth layout ++
        keyText (p.setup.style F) p.prettyPrint key ++ ascii "\"") (p.jsonStartMultipartString key) ∧
      (p.jsonStartMultipartString key).Stands depth layout.next ∧
      ((p.jsonStartMultipartString key).ioErrorFlag = false →
        (p.jsonStartMultipartString key).isInMultipartString = true) := by
  obtain ⟨hemitted, hstands⟩ : Emitted p _ (p.jsonStartMultipartString key) ∧ _ :=
    emitted_jsonAdd F h key fun q _ =>
      have hopen := (wrote_jsonWrite q (ascii "\"")).setMultipart true
      ⟨hopen.1, hopen.2 depth⟩
  refine ⟨hemitted, hstands, ?_⟩
  intro hok
  have hgo : ¬p.ioErrorFlag = true := by simp [hemitted.ok hok]
  unfold jsonStartMultipartString jsonAdd
  rw [if_neg hgo]

theorem emitted_jsonEndMultipartString {p : StreamPrinter O} {depth : ℕ} {layout : Layout}
    (h : p.Stands depth layout) (hmulti : p.ioErrorFlag = false → p.isInMultipartString = true) :
    Emitted p (ascii "\"") p.jsonEndMultipartString ∧ p.jsonEndMultipartString.Stands depth layout := by
  unfold jsonEndMultipartString
  by_cases hstop : p.ioErrorFlag = true
  · rw [if_pos hstop]
    exact ⟨.of_stopped hstop, h⟩
  · have hok : p.ioErrorFlag = false := by simpa using hstop
    rw [if_neg hstop, if_neg (by simp [hmulti hok])]
    have hclose := (wrote_jsonWrite p (ascii "\"")).setMultipart false
    exact ⟨hclose.1, fun _ => hclose.2 depth layout (h hok)⟩

/-- A string of several parts is opened, its parts are written, and it is closed. -/
theorem emitted_multipartString {p : StreamPrinter O} {depth : ℕ} {layout : Layout}
    (h : p.Stands depth layout) (key : Option CString) (parts : List StringPart) :
    Emitted p (separator p.prettyPrint depth layout ++
        keyText (p.setup.style F) p.prettyPrint key ++
        (p.setup.style F).scalarText (.multipartString parts))
      (p.performAll ((Scalar.multipartString parts).calls key)) ∧
      (p.performAll ((Scalar.multipartString parts).calls key)).Stands depth layout.next := by
  obtain ⟨hopen, hstands, hmulti⟩ := emitted_jsonStartMultipartString F h key
  obtain ⟨q, hq⟩ : ∃ q, q = p.jsonStartMultipartString key := ⟨_, rfl⟩
  rw [← hq] at hopen hstands hmulti
  have hparts := wrote_parts F parts q hmulti
  rw [hopen.setup] at hparts
  obtain ⟨r, hr⟩ : ∃ r, r = q.performAll (parts.map StringPart.call) := ⟨_, rfl⟩
  rw [← hr] at hparts
  have hsame : r.isInMultipartString = q.isInMultipartString :=
    congrArg Flags.isInMultipartString hparts.flags
  have hstandsr : r.Stands depth layout.next := by
    intro hok
    rw [hparts.flags]
    exact hstands (hparts.ok hok)
  obtain ⟨hclose, hstandse⟩ := emitted_jsonEndMultipartString hstandsr (by
    intro hok
    rw [hsame]
    exact hmulti (hparts.ok hok))
  have hrun : p.performAll ((Scalar.multipartString parts).calls key) = r.jsonEndMultipartString := by
    rw [hr, hq, Scalar.calls]
    unfold performAll
    rw [List.foldl_append]
    rfl
  have hall := (hopen.trans hparts.toEmitted).trans hclose
  rw [hrun]
  constructor
  · simpa only [Style.scalarText, List.append_assoc] using hall
  · exact hstandse

/-- Every value without parts is written. -/
theorem emitted_scalar {p : StreamPrinter O} {depth : ℕ} {layout : Layout}
    (h : p.Stands depth layout) (key : Option CString) (s : Scalar) :
    Emitted p (separator p.prettyPrint depth layout ++
        keyText (p.setup.style writtenDouble) p.prettyPrint key ++
        (p.setup.style writtenDouble).scalarText s) (p.performAll (s.calls key)) ∧
      (p.performAll (s.calls key)).Stands depth layout.next := by
  have hquoted : ∀ (s : List Byte) (q : StreamPrinter O), q.setup = p.setup →
      Wrote q ((p.setup.style writtenDouble).quoted s) (q.jsonWriteQuotedUnterminatedString s) := by
    intro s q hq
    rw [← hq]
    exact wrote_quoted writtenDouble q s
  have hraw : ∀ (s : List Byte) (q : StreamPrinter O), q.setup = p.setup →
      Wrote q (p.setup.convert s) (q.jsonConvertAndWriteBuffer s false q.inputCCSID) := by
    intro s q hq
    rw [← hq]
    exact wrote_jsonConvertAndWriteBuffer q s false
  cases s with
  | string value => exact emitted_jsonAdd_wrote writtenDouble h key (hquoted value.bytes)
  | jsonString value => exact emitted_jsonAdd_wrote writtenDouble h key (hraw value.bytes)
  | unterminatedJSONString value => exact emitted_jsonAdd_wrote writtenDouble h key (hraw value)
  | unterminatedString value => exact emitted_jsonAdd_wrote writtenDouble h key (hquoted value)
  | limitedString value =>
    exact emitted_jsonAdd_wrote writtenDouble h key (hquoted (hideControlCharacters value))
  | multipartString parts => exact emitted_multipartString writtenDouble h key parts
  | boolean value =>
    exact emitted_jsonAdd_wrote writtenDouble h key fun q _ => wrote_jsonWrite q _
  | null => exact emitted_jsonAdd_wrote writtenDouble h key fun q _ => wrote_jsonWrite q _
  | uint value =>
    have hsmall : ((value.toNat : ℤ)).natAbs < 10 ^ 20 := by omega
    apply emitted_jsonAdd_wrote writtenDouble h key
    intro q _
    rw [Style.scalarText, ← snprintf_formatD hsmall]
    exact wrote_jsonWrite q _
  | int value =>
    have hsmall : value.toInt.natAbs < 10 ^ 20 := by
      have hlo := value.le_toInt
      have hhi := value.toInt_lt
      omega
    apply emitted_jsonAdd_wrote writtenDouble h key
    intro q _
    rw [Style.scalarText, ← snprintf_formatD hsmall]
    exact wrote_jsonWrite q _
  | int64 value =>
    have hsmall : value.toInt.natAbs < 10 ^ 20 := by
      have hlo := value.le_toInt
      have hhi := value.toInt_lt
      omega
    apply emitted_jsonAdd_wrote writtenDouble h key
    intro q _
    rw [Style.scalarText, ← snprintf_formatD hsmall]
    exact wrote_jsonWrite q _
  | double value =>
    exact emitted_jsonAdd_wrote writtenDouble h key fun q _ => wrote_jsonWrite q _

end

theorem performAll_append (p : StreamPrinter O) (a b : List Call) :
    p.performAll (a ++ b) = (p.performAll a).performAll b := List.foldl_append

def valueText (s : Setup O) (depth : ℕ) (layout : Layout) (key : Option CString) (d : Document) :
    List Byte :=
  separator s.prettyPrint depth layout ++ keyText (s.style writtenDouble) s.prettyPrint key ++
    text (s.style writtenDouble) s.prettyPrint depth d

def Printed (O : Type) (d : Document) : Prop :=
  ∀ ⦃p : StreamPrinter O⦄ ⦃depth : ℕ⦄ ⦃layout : Layout⦄ (key : Option CString),
    p.Stands depth layout →
    Emitted p (valueText p.setup depth layout key d) (p.performAll (d.calls key)) ∧
      ∃ layout', (p.performAll (d.calls key)).Stands depth layout' ∧
        (layout ≠ .first → layout' = .between)

theorem emitted_members {members : List (CString × Document)} (ih : ∀ m ∈ members, Printed O m.2) :
    ∀ {p : StreamPrinter O} {depth : ℕ} {layout : Layout}, p.Stands depth layout →
      layout ≠ .first →
      Emitted p (memberText (p.setup.style writtenDouble) p.prettyPrint depth layout members)
        (p.performAll (Document.memberCalls members)) ∧
      ∃ layout', (p.performAll (Document.memberCalls members)).Stands depth layout' ∧
        layout' ≠ .first := by
  induction members with
  | nil =>
    intro p depth layout h hlayout
    rw [Document.memberCalls, memberText]
    exact ⟨.refl p, layout, h, hlayout⟩
  | cons m members ihs =>
    obtain ⟨key, value⟩ := m
    intro p depth layout h hlayout
    obtain ⟨hvalue, layout', hstands, hbetween⟩ := ih _ List.mem_cons_self (some key) h
    rw [hbetween hlayout] at hstands
    obtain ⟨hrest, hend⟩ := ihs (fun m hm => ih m (List.mem_cons_of_mem _ hm)) hstands (by decide)
    have hpretty : (p.performAll (value.calls (some key))).prettyPrint = p.prettyPrint :=
      congrArg Setup.prettyPrint hvalue.setup
    rw [hvalue.setup, hpretty] at hrest
    rw [Document.memberCalls, performAll_append, memberText]
    exact ⟨hvalue.trans hrest, hend⟩

theorem emitted_elements {elements : List Document} (ih : ∀ e ∈ elements, Printed O e) :
    ∀ {p : StreamPrinter O} {depth : ℕ} {layout : Layout}, p.Stands depth layout →
      layout ≠ .first →
      Emitted p (elementText (p.setup.style writtenDouble) p.prettyPrint depth layout elements)
        (p.performAll (Document.elementCalls elements)) ∧
      ∃ layout', (p.performAll (Document.elementCalls elements)).Stands depth layout' ∧
        layout' ≠ .first := by
  induction elements with
  | nil =>
    intro p depth layout h hlayout
    rw [Document.elementCalls, elementText]
    exact ⟨.refl p, layout, h, hlayout⟩
  | cons value elements ihs =>
    intro p depth layout h hlayout
    obtain ⟨hvalue, layout', hstands, hbetween⟩ := ih _ List.mem_cons_self none h
    rw [hbetween hlayout] at hstands
    obtain ⟨hrest, hend⟩ := ihs (fun e he => ih e (List.mem_cons_of_mem _ he)) hstands (by decide)
    have hpretty : (p.performAll (value.calls none)).prettyPrint = p.prettyPrint :=
      congrArg Setup.prettyPrint hvalue.setup
    rw [hvalue.setup, hpretty] at hrest
    unfold valueText at hvalue
    rw [keyText, List.append_nil] at hvalue
    rw [Document.elementCalls, performAll_append, elementText]
    exact ⟨hvalue.trans hrest, hend⟩

theorem emitted_brackets {p : StreamPrinter O} {depth : ℕ} {layout : Layout}
    (h : p.Stands depth layout) (key : Option CString) (opening closing : List Byte)
    {parts : List Call} (partsText : Setup O → List Byte)
    (hparts : ∀ q : StreamPrinter O, q.Stands (depth + 1) .start →
      Emitted q (partsText q.setup) (q.performAll parts) ∧
        ∃ layout', (q.performAll parts).Stands (depth + 1) layout' ∧ layout' ≠ .first) :
    Emitted p (separator p.prettyPrint depth layout ++
        keyText (p.setup.style writtenDouble) p.prettyPrint key ++
        (opening ++ partsText p.setup ++ newLine p.prettyPrint depth ++ closing))
      (jsonEnd closing ((jsonStart opening p key).performAll parts)) ∧
      (jsonEnd closing ((jsonStart opening p key).performAll parts)).Stands depth .between := by
  obtain ⟨hopen, hstart⟩ := emitted_jsonStart writtenDouble h key opening
  obtain ⟨hinner, layout', hstands, hlayout'⟩ := hparts _ hstart
  obtain ⟨hclose, hbetween⟩ := emitted_jsonEnd hstands hlayout' closing
  have hpretty : ((jsonStart opening p key).performAll parts).prettyPrint = p.prettyPrint :=
    congrArg Setup.prettyPrint (hinner.setup.trans hopen.setup)
  rw [hopen.setup] at hinner
  rw [hpretty] at hclose
  constructor
  · have hall := (hopen.trans hinner).trans hclose
    simpa only [List.append_assoc] using hall
  · exact hbetween

theorem printed (d : Document) : Printed O d := by
  induction d using Document.parts_induction with
  | scalar s =>
    intro p depth layout key h
    obtain ⟨hscalar, hstands⟩ := emitted_scalar h key s
    unfold valueText
    rw [Document.calls, text]
    refine ⟨hscalar, layout.next, hstands, ?_⟩
    intro hlayout
    cases layout with
    | first => exact absurd rfl hlayout
    | start => rfl
    | between => rfl
    | finish => rfl
  | object members ih =>
    intro p depth layout key h
    have hrun : p.performAll ((Document.object members).calls key) =
        ((p.jsonStartObject key).performAll (Document.memberCalls members)).jsonEndObject := by
      rw [Document.calls, performAll_append]
      rfl
    have hobject := emitted_brackets h key (ascii "\x7b") (ascii "\x7d")
      (fun s => memberText (s.style writtenDouble) s.prettyPrint (depth + 1) .start members)
      fun q hq => emitted_members ih hq (by decide)
    unfold valueText
    rw [hrun, text]
    exact ⟨hobject.1, .between, hobject.2, fun _ => rfl⟩
  | array elements ih =>
    intro p depth layout key h
    have hrun : p.performAll ((Document.array elements).calls key) =
        ((p.jsonStartArray key).performAll (Document.elementCalls elements)).jsonEndArray := by
      rw [Document.calls, performAll_append]
      rfl
    have harray := emitted_brackets h key (ascii "[") (ascii "]")
      (fun s => elementText (s.style writtenDouble) s.prettyPrint (depth + 1) .start elements)
      fun q hq => emitted_elements ih hq (by decide)
    unfold valueText
    rw [hrun, text]
    exact ⟨harray.1, .between, harray.2, fun _ => rfl⟩

end StreamPrinter
end ZoweCommon
