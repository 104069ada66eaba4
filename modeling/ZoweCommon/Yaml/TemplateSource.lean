import ZoweCommon.Json.BufferMemory
import ZoweCommon.Lib.StringLiteral
import ZoweCommon.Yaml.ReaderCorrect

/-! The source of a template, as an expression of JavaScript: when it stands for the text. -/
namespace ZoweCommon

open CLibrary CString

/-- A part of a text: what is outside of the braces, or the expression between them. -/
inductive TemplatePiece
  | literal (fragment : List Byte)
  | expression (text : List Byte)
  deriving DecidableEq

namespace TemplatePiece

def render : TemplatePiece → List Byte
  | .literal fragment => fragment
  | .expression text => ascii "$\x7b\x7b" ++ text ++ ascii "\x7d\x7d"

def fragmentPiece (fragment : List Byte) : List TemplatePiece :=
  if fragment = [] then [] else [.literal fragment]

end TemplatePiece

open TemplatePiece

/-- The pieces of a text, unless braces are left open. -/
def templatePieces (text : List Byte) : Option (List TemplatePiece) :=
  match _h : strstr text (ascii "$\x7b\x7b") with
  | none => some (fragmentPiece text)
  | some start =>
    match strstr (text.drop (start + 3)) (ascii "\x7d\x7d") with
    | none => none
    | some stop =>
      (templatePieces ((text.drop (start + 3)).drop (stop + 2))).map fun rest =>
        fragmentPiece (text.take start) ++ .expression ((text.drop (start + 3)).take stop) :: rest
termination_by text.length
decreasing_by
  have hlength := strstr_le _h
  have hneedle : (ascii "$\x7b\x7b").length = 3 := rfl
  rw [List.length_drop, List.length_drop]
  omega

theorem templatePieces_of_none {text : List Byte}
    (h : strstr text (ascii "$\x7b\x7b") = none) :
    templatePieces text = some (fragmentPiece text) := by
  rw [templatePieces, h]

theorem templatePieces_of_open {text : List Byte} {start : ℕ}
    (hstart : strstr text (ascii "$\x7b\x7b") = some start)
    (hopen : strstr (text.drop (start + 3)) (ascii "\x7d\x7d") = none) :
    templatePieces text = none := by
  rw [templatePieces, hstart]
  dsimp only
  rw [hopen]

theorem templatePieces_of_closed {text : List Byte} {start stop : ℕ}
    (hstart : strstr text (ascii "$\x7b\x7b") = some start)
    (hstop : strstr (text.drop (start + 3)) (ascii "\x7d\x7d") = some stop) :
    templatePieces text = (templatePieces ((text.drop (start + 3)).drop (stop + 2))).map fun rest =>
      fragmentPiece (text.take start) ++
        .expression ((text.drop (start + 3)).take stop) :: rest := by
  rw [templatePieces, hstart]
  dsimp only
  rw [hstop]

def TemplatePiece.IsOperand : TemplatePiece → List Byte → Prop
  | .literal fragment, operand => StringLiteral.Denotes operand fragment
  | .expression text, operand => operand = text

def Concatenates (source : List Byte) (pieces : List TemplatePiece) : Prop :=
  ∃ operands, List.Forall₂ IsOperand pieces operands ∧
    source = (ascii " + ").intercalate operands

def templateObject (source : CString) : Json :=
  .object [(ZOWE_INTERNAL_TYPE, .scalar (.string ZOWE_UNEVALUATED)),
    (ofBytes (ascii "source"), .scalar (.string source))]

/-- A text is built as an object whose source is the sum of its pieces. If braces are left open,
there is an error and nothing is built. -/
def TemplateDenotes (b : JsonBuilder) (parent : Option ℕ) (parentKey : Option CString)
    (text : CString) : Prop :=
  (∀ pieces, templatePieces text.bytes = some pieces → ∃ b' source,
    buildTemplateJSON b parent parentKey text.bytes = .ok (0, b') ∧
    JsonBuilder.Built b b' parent parentKey (templateObject source) ∧
    Concatenates source.bytes pieces) ∧
  (templatePieces text.bytes = none → ∃ status, status ≠ 0 ∧
    buildTemplateJSON b parent parentKey text.bytes = .ok (status, b))

/-! What is written -/

def TemplatePiece.operand : TemplatePiece → List Byte
  | .literal fragment => 0x22 :: (fragment ++ [0x22])
  | .expression text => text

def sourceText (pieces : List TemplatePiece) : List Byte :=
  (ascii " + ").intercalate (pieces.map operand)

/-- No fragment has a character that a string literal cannot have as it is. -/
def TemplatePiece.IsClean : TemplatePiece → Prop
  | .literal fragment => StringLiteral.IsClean fragment
  | .expression _ => True

/-- What comes after earlier pieces, or at the very beginning. -/
def followingText : Bool → List TemplatePiece → List Byte
  | _, [] => []
  | first, piece :: pieces =>
    (if first then [] else ascii " + ") ++ piece.operand ++ followingText false pieces

theorem followingText_append (first : Bool) (fragment : List Byte) (pieces : List TemplatePiece) :
    followingText first (fragmentPiece fragment ++ pieces) =
      followingText first (fragmentPiece fragment) ++
        followingText (first && decide (fragment = [])) pieces := by
  unfold fragmentPiece
  by_cases h : fragment = []
  · rw [if_pos h, decide_eq_true h, Bool.and_true]
    rfl
  · rw [if_neg h, decide_eq_false h, Bool.and_false]
    simp [followingText]

theorem sourceText_eq (pieces : List TemplatePiece) :
    followingText true pieces = sourceText pieces := by
  have hlater : ∀ (piece : TemplatePiece) (pieces : List TemplatePiece),
      piece.operand ++ followingText false pieces = sourceText (piece :: pieces) := by
    intro piece pieces
    induction pieces generalizing piece with
    | nil => simp [followingText, sourceText]
    | cons next pieces ih =>
      have hnext := ih next
      unfold sourceText at hnext ⊢
      rw [List.map_cons, List.map_cons, List.intercalate_cons_cons, ← List.map_cons, ← hnext]
      simp [followingText]
  cases pieces with
  | nil => rfl
  | cons piece pieces =>
    rw [← hlater]
    simp [followingText]

namespace JsonPrinter

/-- The printer has written a text, as far as the buffer may grow. -/
def Wrote (p : JsonPrinter) (text : List Byte) : Prop :=
  text.length ≤ JSON_BUF_LIMIT → BufferMemory.Full p text

variable {p : JsonPrinter} {text : List Byte}

theorem wrote_makeBufferJsonPrinter : Wrote (makeBufferJsonPrinter makeJsonBuffer) [] :=
  fun _ => ⟨rfl, rfl, .inl rfl⟩

theorem Wrote.jsonWriteBufferInternal (h : Wrote p text) (more : List Byte) :
    Wrote (p.jsonWriteBufferInternal more) (text ++ more) :=
  fun hfits => (h (fits_left hfits)).jsonWriteBufferInternal hfits

theorem jsonConvertAndWriteBuffer_unescaped (p : JsonPrinter) (text : List Byte) :
    p.jsonConvertAndWriteBuffer text false = p.jsonWriteBufferInternal text := by
  unfold JsonPrinter.jsonConvertAndWriteBuffer
  by_cases hflag : p.ioErrorFlag = true
  · unfold JsonPrinter.jsonWriteBufferInternal
    rw [if_pos hflag, if_pos hflag]
  · rw [if_neg hflag]
    cases p.mode <;> rfl

theorem Wrote.jsonWriteParseably_quoted (h : Wrote p text) (fragment : List Byte) :
    Wrote (p.jsonWriteParseably fragment true false)
      (text ++ (TemplatePiece.literal fragment).operand) := by
  have hquoted := ((h.jsonWriteBufferInternal (ascii "\"")).jsonWriteBufferInternal
    fragment).jsonWriteBufferInternal (ascii "\"")
  rw [List.append_assoc, List.append_assoc] at hquoted
  unfold JsonPrinter.jsonWriteParseably JsonPrinter.jsonWrite
  simp only [if_true, jsonConvertAndWriteBuffer_unescaped]
  exact hquoted

theorem Wrote.jsonWriteParseably_unquoted (h : Wrote p text) (more : List Byte) :
    Wrote (p.jsonWriteParseably more false false) (text ++ more) := by
  unfold JsonPrinter.jsonWriteParseably
  simp only [Bool.false_eq_true, if_false, jsonConvertAndWriteBuffer_unescaped]
  exact h.jsonWriteBufferInternal more

theorem Wrote.addPlusIfNecessary (h : Wrote p text) (first : Bool) :
    Wrote (ZoweCommon.addPlusIfNecessary p first) (text ++ if first then [] else ascii " + ") := by
  cases first with
  | true => rwa [if_pos rfl, List.append_nil]
  | false => exact h.jsonWriteParseably_unquoted (ascii " + ")

theorem Wrote.expression (h : Wrote p text) (first : Bool) (exprText : List Byte) :
    Wrote ((ZoweCommon.addPlusIfNecessary p first).jsonWriteParseably exprText false false)
      (text ++ followingText first [.expression exprText]) := by
  have hwrote := (h.addPlusIfNecessary first).jsonWriteParseably_unquoted exprText
  rw [List.append_assoc] at hwrote
  simpa [followingText, TemplatePiece.operand] using hwrote

/-- A fragment with something in it is written. -/
theorem Wrote.fragment (h : Wrote p text) (first : Bool) (fragment : List Byte) :
    Wrote (if fragment = [] then p else
        (ZoweCommon.addPlusIfNecessary p first).jsonWriteParseably fragment true false)
      (text ++ followingText first (fragmentPiece fragment)) := by
  unfold fragmentPiece
  by_cases hempty : fragment = []
  · rw [if_pos hempty, if_pos hempty, followingText, List.append_nil]
    exact h
  · have hwrote := (h.addPlusIfNecessary first).jsonWriteParseably_quoted fragment
    rw [List.append_assoc] at hwrote
    rw [if_neg hempty, if_neg hempty]
    simpa [followingText] using hwrote

end JsonPrinter

/-! What the braces enclose -/

theorem starts_of_strstr {text needle : List Byte} {i : ℕ} (h : strstr text needle = some i) :
    needle <+: text.drop i := by
  induction text generalizing i with
  | nil =>
    rw [strstr] at h
    split_ifs at h with hneedle
    rw [hneedle]
    exact List.nil_prefix
  | cons c text ih =>
    rw [strstr] at h
    split_ifs at h with hstarts
    · rw [← Option.some_inj.mp h]
      exact List.isPrefixOf_iff_prefix.mp hstarts
    · obtain ⟨j, hj, rfl⟩ := Option.map_eq_some_iff.mp h
      exact ih hj

/-- The closing braces come after the opening ones. -/
theorem strstr_closing {text : List Byte} {start : ℕ}
    (h : strstr text (ascii "$\x7b\x7b") = some start) :
    strstr (text.drop start) (ascii "\x7d\x7d") =
      (strstr (text.drop (start + 3)) (ascii "\x7d\x7d")).map (· + 3) := by
  obtain ⟨rest, hrest⟩ := starts_of_strstr h
  have hinside : text.drop (start + 3) = rest := by
    rw [← List.drop_drop, ← hrest]
    rfl
  have hopening : ∀ c ∈ ascii "$\x7b\x7b", ∀ more,
      strstr (c :: more) (ascii "\x7d\x7d") = (strstr more (ascii "\x7d\x7d")).map (· + 1) := by
    intro c hc more
    have hne : ((0x7D : Byte) == c) = false := by
      revert c
      decide
    rw [strstr, if_neg]
    show ¬((0x7D : Byte) == c && _) = true
    rw [hne, Bool.false_and]
    exact Bool.false_ne_true
  rw [hinside, ← hrest]
  show strstr (0x24 :: 0x7B :: 0x7B :: rest) _ = _
  rw [hopening 0x24 (by decide), hopening 0x7B (by decide), hopening 0x7B (by decide),
    Option.map_map, Option.map_map]
  rfl

theorem render_templatePieces (text : List Byte) :
    ∀ pieces, templatePieces text = some pieces → pieces.flatMap render = text := by
  have hfragment : ∀ fragment, (fragmentPiece fragment).flatMap render = fragment := by
    intro fragment
    unfold fragmentPiece
    split_ifs with hempty
    · exact hempty.symm
    · exact List.append_nil _
  induction text using templatePieces.induct with
  | case1 text hnone =>
    intro pieces h
    rw [templatePieces_of_none hnone] at h
    cases h
    exact hfragment text
  | case2 text start hstart hopen =>
    intro pieces h
    rw [templatePieces_of_open hstart hopen] at h
    cases h
  | case3 text start hstart stop hstop ih =>
    intro pieces h
    rw [templatePieces_of_closed hstart hstop] at h
    obtain ⟨rest, hrest, rfl⟩ := Option.map_eq_some_iff.mp h
    obtain ⟨after, hafter⟩ := starts_of_strstr hstart
    obtain ⟨after', hafter'⟩ := starts_of_strstr hstop
    let inside := text.drop (start + 3)
    have hinside : inside = after := by
      show text.drop (start + 3) = after
      rw [← List.drop_drop, ← hafter]
      rfl
    have hbehind : inside.drop (stop + 2) = after' := by
      rw [← List.drop_drop, ← hafter']
      rfl
    rw [List.flatMap_append, List.flatMap_cons, hfragment, ih rest hrest, hbehind]
    calc text.take start ++ ((ascii "$\x7b\x7b" ++ inside.take stop ++ ascii "\x7d\x7d") ++ after')
        = text.take start ++
          (ascii "$\x7b\x7b" ++ (inside.take stop ++ (ascii "\x7d\x7d" ++ after'))) := by
          simp only [List.append_assoc]
      _ = text.take start ++ (ascii "$\x7b\x7b" ++ inside) := by
        rw [hafter', List.take_append_drop]
      _ = text := by rw [hinside, hafter, List.take_append_drop]

/-! One turn of the loop that writes the source -/

section Turn

variable {text : List Byte} {p : JsonPrinter} {first : Bool} {start : ℕ}

theorem templateSource_of_none (h : strstr text (ascii "$\x7b\x7b") = none) :
    templateSource p first text = .ok (if text = [] then p else
      (addPlusIfNecessary p first).jsonWriteParseably text true false) := by
  rw [templateSource, h]
  dsimp only
  by_cases hempty : text = []
  · rw [if_pos hempty, if_neg (by rw [hempty]; exact Nat.lt_irrefl 0)]
  · rw [if_neg hempty, if_pos (List.length_pos_iff.mpr hempty)]

theorem templateSource_of_open (hstart : strstr text (ascii "$\x7b\x7b") = some start)
    (hopen : strstr (text.drop (start + 3)) (ascii "\x7d\x7d") = none) :
    templateSource p first text = .error JSON_FAIL_BAD_TEMPLATE := by
  rw [templateSource, hstart]
  dsimp only
  rw [strstr_closing hstart, hopen]
  rfl

theorem take_start_eq_nil_iff (hstart : strstr text (ascii "$\x7b\x7b") = some start) :
    text.take start = [] ↔ ¬start > 0 := by
  have hle := strstr_le hstart
  rw [List.take_eq_nil_iff]
  constructor
  · rintro (hzero | hnil)
    · omega
    · rw [hnil] at hle
      exact absurd hle (by simp [ascii])
  · intro hzero
    exact .inl (by omega)

/-- The text before the braces is written if there is any, then the expression between them. -/
theorem templateSource_of_closed (hstart : strstr text (ascii "$\x7b\x7b") = some start) {stop : ℕ}
    (hstop : strstr (text.drop (start + 3)) (ascii "\x7d\x7d") = some stop) :
    templateSource p first text = templateSource
      ((addPlusIfNecessary
        (if text.take start = [] then p else
          (addPlusIfNecessary p first).jsonWriteParseably (text.take start) true false)
        (first && decide (text.take start = []))).jsonWriteParseably
          ((text.drop (start + 3)).take stop) false false) false
      ((text.drop (start + 3)).drop (stop + 2)) := by
  have htaken : ((text.drop start).take (stop + 3)).drop 3 =
      (text.drop (start + 3)).take stop := by
    rw [List.drop_take, List.drop_drop]
    rfl
  have hleft : text.drop (start + (stop + 3) + 2) =
      (text.drop (start + 3)).drop (stop + 2) := by
    rw [List.drop_drop]
    congr 1
    omega
  have hpair : (if start > 0 then
      ((addPlusIfNecessary p first).jsonWriteParseably (text.take start) true false, false)
      else (p, first)) =
      (if text.take start = [] then p else
        (addPlusIfNecessary p first).jsonWriteParseably (text.take start) true false,
      first && decide (text.take start = [])) := by
    have hempty := take_start_eq_nil_iff hstart
    by_cases hpos : start > 0
    · have hne : text.take start ≠ [] := fun hnil => hempty.mp hnil hpos
      rw [if_pos hpos, if_neg hne, decide_eq_false hne, Bool.and_false]
    · have hnil := hempty.mpr hpos
      rw [if_neg hpos, if_pos hnil, decide_eq_true hnil, Bool.and_true]
  rw [templateSource, hstart]
  dsimp only
  rw [hpair, strstr_closing hstart]
  rw [hstop, Option.map_some]
  dsimp only
  rw [htaken, hleft]

end Turn

/-- By recursion on what is left of the text: a piece is written for each that there is. -/
theorem templateSource_eq (text : List Byte) : ∀ {p : JsonPrinter} {written : List Byte}
    (first : Bool), p.Wrote written →
    (∀ pieces, templatePieces text = some pieces → ∃ p', templateSource p first text = .ok p' ∧
      p'.Wrote (written ++ followingText first pieces)) ∧
    (templatePieces text = none → templateSource p first text = .error JSON_FAIL_BAD_TEMPLATE) := by
  induction text using templatePieces.induct with
  | case1 text hnone =>
    intro p written first hwrote
    rw [templatePieces_of_none hnone]
    constructor
    · intro pieces h
      cases h
      exact ⟨_, templateSource_of_none hnone, hwrote.fragment first text⟩
    · intro h
      cases h
  | case2 text start hstart hopen =>
    intro p written first hwrote
    rw [templatePieces_of_open hstart hopen]
    constructor
    · intro pieces h
      cases h
    · intro _
      exact templateSource_of_open hstart hopen
  | case3 text start hstart stop hstop ih =>
    intro p written first hwrote
    let first₁ := first && decide (text.take start = [])
    have hfragment := hwrote.fragment first (text.take start)
    have hexpression := JsonPrinter.Wrote.expression hfragment first₁
      ((text.drop (start + 3)).take stop)
    obtain ⟨hok, herror⟩ := ih false hexpression
    rw [templatePieces_of_closed hstart hstop, templateSource_of_closed hstart hstop]
    constructor
    · intro pieces h
      obtain ⟨rest, hrest, rfl⟩ := Option.map_eq_some_iff.mp h
      obtain ⟨p', hrun, hwrote'⟩ := hok rest hrest
      refine ⟨p', hrun, ?_⟩
      rw [followingText_append]
      rw [List.append_assoc, List.append_assoc] at hwrote'
      simpa [followingText, first₁] using hwrote'
    · intro h
      exact herror (Option.map_eq_none_iff.mp h)

/-! Which sources are sums -/

theorem length_intercalate {α : Type} (separator x : List α) (xs : List (List α)) :
    (separator.intercalate (x :: xs)).length =
      x.length + (xs.map fun y => separator.length + y.length).sum := by
  induction xs generalizing x with
  | nil => simp
  | cons y xs ih =>
    rw [List.intercalate_cons_cons, List.length_append, List.length_append, ih, List.map_cons,
      List.sum_cons]
    omega

theorem TemplatePiece.IsOperand.length_le {piece : TemplatePiece} {operand : List Byte}
    (h : piece.IsOperand operand) : piece.operand.length ≤ operand.length := by
  cases piece with
  | literal fragment =>
    have hle := StringLiteral.Denotes.length_le h
    rw [TemplatePiece.operand, List.length_cons, List.length_append, List.length_singleton]
    exact hle
  | expression text => exact (congrArg List.length h).ge

theorem TemplatePiece.IsOperand.isClean {piece : TemplatePiece} {operand : List Byte}
    (h : piece.IsOperand operand) (hlength : operand.length ≤ piece.operand.length) :
    piece.IsClean := by
  cases piece with
  | literal fragment =>
    rw [TemplatePiece.operand, List.length_cons, List.length_append, List.length_singleton]
      at hlength
    exact StringLiteral.Denotes.isClean h hlength
  | expression text => exact True.intro

theorem TemplatePiece.IsClean.isOperand {piece : TemplatePiece} (h : piece.IsClean) :
    piece.IsOperand piece.operand := by
  cases piece with
  | literal fragment => exact StringLiteral.IsClean.denotes h
  | expression text => rfl

/-- What comes after a first operand is no shorter than it is written, and as short only if no
fragment needs an escape. -/
theorem operands_length {pieces : List TemplatePiece} {operands : List (List Byte)} (n : ℕ)
    (h : List.Forall₂ IsOperand pieces operands) :
    ((pieces.map operand).map fun y => n + y.length).sum ≤
        (operands.map fun y => n + y.length).sum ∧
      ((operands.map fun y => n + y.length).sum ≤
          ((pieces.map operand).map fun y => n + y.length).sum →
        ∀ piece ∈ pieces, piece.IsClean) := by
  induction h with
  | nil => exact ⟨le_rfl, fun _ => List.forall_mem_nil _⟩
  | @cons piece operand pieces operands hpiece hpieces ih =>
    obtain ⟨hle, hclean⟩ := ih
    have hlength := hpiece.length_le
    rw [List.map_cons, List.map_cons, List.map_cons, List.sum_cons, List.sum_cons]
    constructor
    · omega
    · intro hshort
      exact List.forall_mem_cons.mpr ⟨hpiece.isClean (by omega), hclean (by omega)⟩

theorem Concatenates.length_le {source : List Byte} {pieces : List TemplatePiece}
    (h : Concatenates source pieces) : (sourceText pieces).length ≤ source.length := by
  obtain ⟨operands, hoperands, rfl⟩ := h
  cases hoperands with
  | nil => exact le_rfl
  | cons hpiece hpieces =>
    have hlength := hpiece.length_le
    have hle := (operands_length (ascii " + ").length hpieces).1
    unfold sourceText
    rw [List.map_cons, length_intercalate, length_intercalate]
    omega

theorem Concatenates.isClean {source : List Byte} {pieces : List TemplatePiece}
    (h : Concatenates source pieces) (hlength : source.length ≤ (sourceText pieces).length) :
    ∀ piece ∈ pieces, piece.IsClean := by
  obtain ⟨operands, hoperands, rfl⟩ := h
  cases hoperands with
  | nil => exact List.forall_mem_nil _
  | cons hpiece hpieces =>
    have hpieceLength := hpiece.length_le
    obtain ⟨hle, hclean⟩ := operands_length (ascii " + ").length hpieces
    unfold sourceText at hlength
    rw [List.map_cons, length_intercalate, length_intercalate] at hlength
    exact List.forall_mem_cons.mpr ⟨hpiece.isClean (by omega), hclean (by omega)⟩

/-- What is written is a sum just if no fragment needs an escape. -/
theorem concatenates_sourceText_iff (pieces : List TemplatePiece) :
    Concatenates (sourceText pieces) pieces ↔ ∀ piece ∈ pieces, piece.IsClean := by
  constructor
  · intro h
    exact h.isClean le_rfl
  · intro h
    refine ⟨pieces.map operand, ?_, rfl⟩
    rw [List.forall₂_map_right_iff, List.forall₂_same]
    exact fun piece hpiece => (h piece hpiece).isOperand

/-! What is built -/

/-- The source and its terminator fit in the buffer. -/
def SourceFits (pieces : List TemplatePiece) : Prop :=
  (sourceText pieces).length ≤ JSON_BUF_LIMIT ∧
    ∀ k ≤ 20, (sourceText pieces).length ≠ JSON_BUF_DEFAULT_SIZE * 2 ^ k

theorem noNul_followingText {pieces : List TemplatePiece}
    (h : ∀ piece ∈ pieces, NoNul piece.render) (first : Bool) :
    NoNul (followingText first pieces) := by
  induction pieces generalizing first with
  | nil => exact NoNul.nil
  | cons piece pieces ih =>
    obtain ⟨hpiece, hpieces⟩ := List.forall_mem_cons.mp h
    have hplus : NoNul (if first then [] else ascii " + ") := by
      cases first <;> decide
    have hoperand : NoNul piece.operand := by
      cases piece with
      | literal fragment => exact (NoNul.append hpiece (by decide)).cons (by decide)
      | expression text =>
        intro c hc
        exact hpiece c (List.mem_append_left _ (List.mem_append_right _ hc))
    rw [followingText]
    exact (hplus.append hoperand).append (ih hpieces false)

theorem noNul_sourceText {text : CString} {pieces : List TemplatePiece}
    (h : templatePieces text.bytes = some pieces) : NoNul (sourceText pieces) := by
  rw [← sourceText_eq]
  apply noNul_followingText
  intro piece hpiece c hc
  apply text.noNul
  rw [← render_templatePieces text.bytes pieces h]
  exact List.mem_flatMap.mpr ⟨piece, hpiece, hc⟩

theorem templateSource_wrote {text : CString} {pieces : List TemplatePiece}
    (h : templatePieces text.bytes = some pieces) :
    ∃ p, templateSource (makeBufferJsonPrinter makeJsonBuffer) true
        (ofBytes text.bytes).bytes = .ok p ∧ p.Wrote (sourceText pieces) := by
  obtain ⟨p, hrun, hwrote⟩ := (templateSource_eq text.bytes true
    JsonPrinter.wrote_makeBufferJsonPrinter).1 pieces h
  rw [sourceText_eq] at hwrote
  exact ⟨p, by rwa [ofBytes_bytes], hwrote⟩

theorem data_of_jsonBufferTerminateString {buf buffer : JsonBuffer}
    (h : jsonBufferTerminateString buf = .ok buffer) :
    buffer.data = buf.data ++ [0] ∧ buf.data.length + 1 ≤ buf.size := by
  unfold jsonBufferTerminateString at h
  split at h
  · next hroom =>
    cases h
    exact ⟨rfl, hroom⟩
  · cases h

theorem source_unique {b b' : JsonBuilder} {parent : Option ℕ} {parentKey : Option CString}
    {source source' : CString}
    (h : JsonBuilder.Built b b' parent parentKey (templateObject source))
    (h' : JsonBuilder.Built b b' parent parentKey (templateObject source')) : source = source' := by
  obtain ⟨ps, hnode, p, ps₁, rfl, -, q, ps₂, rfl, hsource, -⟩ := h.rep
  obtain ⟨ps', hnode', p', ps₁', rfl, -, q', ps₂', rfl, hsource', -⟩ := h'.rep
  rw [hnode, Option.some_inj, JsonNode.object.injEq] at hnode'
  obtain ⟨-, hrest⟩ := List.cons.inj hnode'
  obtain ⟨hpair, -⟩ := List.cons.inj hrest
  obtain ⟨-, rfl⟩ := Prod.mk.inj hpair
  have hscalar := hsource.2.symm.trans hsource'.2
  cases hscalar
  rfl

section

variable {b : JsonBuilder} {parent : Option ℕ} {parentKey : Option CString}

/-- With braces left open, nothing is built. -/
theorem buildTemplateJSON_open {text : CString} (h : templatePieces text.bytes = none) :
    buildTemplateJSON b parent parentKey text.bytes = .ok (JSON_FAIL_BAD_TEMPLATE, b) := by
  have hrun := (templateSource_eq text.bytes true JsonPrinter.wrote_makeBufferJsonPrinter).2 h
  unfold buildTemplateJSON
  rw [ofBytes_bytes, hrun]
  rfl

/-- Without an error the whole source is there, and a byte of the buffer is left for its end. -/
theorem TemplateDenotes.pieces (h : JsonBuilder.Slot b parent parentKey) {text : CString}
    (hdenotes : TemplateDenotes b parent parentKey text) {pieces : List TemplatePiece}
    (hpieces : templatePieces text.bytes = some pieces) :
    (∀ piece ∈ pieces, piece.IsClean) ∧ SourceFits pieces := by
  obtain ⟨p, hsource, hwrote⟩ := templateSource_wrote hpieces
  obtain ⟨b', source, hrun, hbuilt, hsum⟩ := hdenotes.1 pieces hpieces
  have heq := h.buildTemplateJSON_eq hsource
  cases hbuffer : jsonBufferTerminateString p.customObject with
  | error fault =>
    rw [hbuffer] at heq
    cases hrun.symm.trans heq
  | ok buffer =>
    rw [hbuffer] at heq
    obtain ⟨b'', hrun', hbuilt'⟩ := heq
    cases hrun.symm.trans hrun'
    obtain rfl := source_unique hbuilt hbuilt'
    obtain ⟨hdata, hroom⟩ := data_of_jsonBufferTerminateString hbuffer
    have hshort : (ofBytes buffer.data).bytes.length ≤ p.customObject.size := by
      have hle : (ofBytes buffer.data).bytes.length ≤ buffer.data.length :=
        (List.takeWhile_prefix _).length_le
      rw [hdata, List.length_append, List.length_singleton] at hle
      rw [hdata]
      exact hle.trans hroom
    have hlimit := (hsum.length_le.trans hshort).trans p.customObject.size_le
    have hfull := hwrote hlimit
    have hbytes : (ofBytes buffer.data).bytes = sourceText pieces := by
      rw [hdata, hfull.data, ofBytes_terminated, ofBytes_of_noNul (noNul_sourceText hpieces)]
    rw [hbytes] at hsum
    refine ⟨(concatenates_sourceText_iff pieces).mp hsum, hlimit, fun k hk hlength => ?_⟩
    have htight := hfull.tight
    rw [← hfull.data] at htight hlength
    have hsize := htight.full_iff.mpr ⟨k, hk, hlength⟩
    omega

theorem buildTemplateJSON_clean (h : JsonBuilder.Slot b parent parentKey) {text : CString}
    {pieces : List TemplatePiece} (hpieces : templatePieces text.bytes = some pieces)
    (hfits : SourceFits pieces) :
    ∃ b' source, buildTemplateJSON b parent parentKey text.bytes = .ok (0, b') ∧
      JsonBuilder.Built b b' parent parentKey (templateObject source) ∧
      source.bytes = sourceText pieces := by
  obtain ⟨hlimit, hsizes⟩ := hfits
  obtain ⟨p, hsource, hwrote⟩ := templateSource_wrote hpieces
  have hfull := hwrote hlimit
  have hroom : p.customObject.data.length + 1 ≤ p.customObject.size := by
    have htight := hfull.tight
    have hle := p.customObject.len_le
    rw [← hfull.data] at htight
    have hne : p.customObject.data.length ≠ p.customObject.size := by
      intro hsize
      obtain ⟨k, hk, hlength⟩ := htight.full_iff.mp hsize
      rw [hfull.data] at hlength
      exact hsizes k hk hlength
    omega
  have hbuffer : jsonBufferTerminateString p.customObject = .ok (p.customObject.append [0] hroom) :=
    dif_pos hroom
  have hdata : (p.customObject.append [0] hroom).data = sourceText pieces ++ [0] := by
    rw [← hfull.data]
    rfl
  have heq := h.buildTemplateJSON_eq hsource
  rw [hbuffer] at heq
  obtain ⟨b', hrun, hbuilt⟩ := heq
  refine ⟨b', _, hrun, hbuilt, ?_⟩
  rw [hdata, ofBytes_terminated, ofBytes_of_noNul (noNul_sourceText hpieces)]

/-- A text is built as the sum of its pieces just if no fragment has a quote, a backslash or the
end of a line in it, and the source with its terminator fits. -/
theorem templateDenotes_iff (h : JsonBuilder.Slot b parent parentKey) (text : CString) :
    TemplateDenotes b parent parentKey text ↔
      ∀ pieces, templatePieces text.bytes = some pieces →
        (∀ piece ∈ pieces, piece.IsClean) ∧ SourceFits pieces := by
  constructor
  · intro hdenotes pieces hpieces
    exact hdenotes.pieces h hpieces
  · intro hall
    constructor
    · intro pieces hpieces
      obtain ⟨hclean, hfits⟩ := hall pieces hpieces
      obtain ⟨b', source, hrun, hbuilt, hsource⟩ := buildTemplateJSON_clean h hpieces hfits
      refine ⟨b', source, hrun, hbuilt, ?_⟩
      rw [hsource]
      exact (concatenates_sourceText_iff pieces).mpr hclean
    · intro hopen
      exact ⟨JSON_FAIL_BAD_TEMPLATE, by decide, buildTemplateJSON_open hopen⟩

end

theorem sourceFits_of_lt {pieces : List TemplatePiece} (h : (sourceText pieces).length < 1024) :
    SourceFits pieces := by
  refine ⟨h.le.trans (by decide), fun k _ heq => ?_⟩
  have hpos := Nat.two_pow_pos k
  unfold JSON_BUF_DEFAULT_SIZE at heq
  omega

/-- The text is `say ${{x}}`. -/
theorem templateDenotes_iff_say : TemplateDenotes ⟨[], none⟩ none none
    (ofBytes (ascii "say $\x7b\x7bx\x7d\x7d")) := by
  apply (templateDenotes_iff JsonBuilder.Slot.root _).mpr
  have htext : templatePieces (ofBytes (ascii "say $\x7b\x7bx\x7d\x7d")).bytes =
      some [.literal (ascii "say "), .expression (ascii "x")] := by
    rw [@templatePieces_of_closed _ 4 1 (by decide) (by decide),
      templatePieces_of_none (by decide)]
    decide
  intro pieces hpieces
  cases htext.symm.trans hpieces
  have hclean : StringLiteral.IsClean (ascii "say ") := by decide
  exact ⟨List.forall_mem_cons.mpr ⟨hclean, List.forall_mem_singleton.mpr True.intro⟩,
    sourceFits_of_lt (by decide)⟩

/-- The text is `a"b${{x}}`: the quote in the fragment ends the literal. -/
theorem not_templateDenotes : ¬ TemplateDenotes ⟨[], none⟩ none none
    (ofBytes (ascii "a\"b$\x7b\x7bx\x7d\x7d")) := by
  intro h
  have htext : templatePieces (ofBytes (ascii "a\"b$\x7b\x7bx\x7d\x7d")).bytes =
      some [.literal (ascii "a\"b"), .expression (ascii "x")] := by
    rw [@templatePieces_of_closed _ 3 1 (by decide) (by decide),
      templatePieces_of_none (by decide)]
    decide
  have hclean := (h.pieces JsonBuilder.Slot.root htext).1 _ List.mem_cons_self
  exact absurd rfl (hclean 0x22 (by decide)).1

end ZoweCommon
