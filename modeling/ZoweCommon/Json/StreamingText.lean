import ZoweCommon.Json.PrinterText
import ZoweCommon.Json.Streaming

/-! Values as they are described to the printer, their tokens, and the text that consists of these. -/
namespace ZoweCommon
namespace StreamPrinter

open CLibrary CString JsonPrinter

/-! What the calls describe -/

inductive StringPart
  | terminated (s : CString)
  | unterminated (value : List Byte)

namespace StringPart

def bytes : StringPart → List Byte
  | .terminated s => s.bytes
  | .unterminated value => value

def call : StringPart → Call
  | .terminated s => .jsonAppendStringPart s
  | .unterminated value => .jsonAppendUnterminatedStringPart value

end StringPart

/-- The values without parts, one for each way to write one. -/
inductive Scalar
  | string (value : CString)
  | jsonString (validJsonValue : CString)
  | unterminatedJSONString (validJsonValue : List Byte)
  | unterminatedString (value : List Byte)
  | limitedString (value : List Byte)
  | multipartString (parts : List StringPart)
  | boolean (value : BitVec 32)
  | null
  | uint (value : BitVec 32)
  | int (value : BitVec 32)
  | int64 (value : BitVec 64)
  | double (value : BitVec 64)

inductive Document
  | scalar (s : Scalar)
  | object (members : List (CString × Document))
  | array (elements : List Document)

namespace Scalar

def calls (keyOrNull : Option CString) : Scalar → List Call
  | .string value => [.jsonAddString keyOrNull value]
  | .jsonString value => [.jsonAddJSONString keyOrNull value]
  | .unterminatedJSONString value => [.jsonAddUnterminatedJSONString keyOrNull value]
  | .unterminatedString value => [.jsonAddUnterminatedString keyOrNull value]
  | .limitedString value => [.jsonAddLimitedString keyOrNull value]
  | .multipartString parts =>
    .jsonStartMultipartString keyOrNull :: parts.map StringPart.call ++ [.jsonEndMultipartString]
  | .boolean value => [.jsonAddBoolean keyOrNull value]
  | .null => [.jsonAddNull keyOrNull]
  | .uint value => [.jsonAddUInt keyOrNull value]
  | .int value => [.jsonAddInt keyOrNull value]
  | .int64 value => [.jsonAddInt64 keyOrNull value]
  | .double value => [.jsonAddDouble keyOrNull value]

end Scalar

namespace Document

/-- Induction over a value, with one hypothesis for all its members or elements. -/
@[elab_as_elim] theorem parts_induction {motive : Document → Prop}
    (scalar : ∀ s, motive (.scalar s))
    (object : ∀ members, (∀ m ∈ members, motive m.2) → motive (.object members))
    (array : ∀ elements, (∀ e ∈ elements, motive e) → motive (.array elements)) : ∀ d, motive d
  | .scalar s => scalar s
  | .object members => object members fun m _ => parts_induction scalar object array m.2
  | .array elements => array elements fun e _ => parts_induction scalar object array e
termination_by d => sizeOf d
decreasing_by
  · next hm =>
    have hlt := List.sizeOf_lt_of_mem hm
    cases m
    simp at hlt ⊢
    omega
  · next he =>
    have hlt := List.sizeOf_lt_of_mem he
    simp
    omega

mutual

/-- The calls that describe a value. -/
def calls (keyOrNull : Option CString) : Document → List Call
  | .scalar s => s.calls keyOrNull
  | .object members => .jsonStartObject keyOrNull :: memberCalls members ++ [.jsonEndObject]
  | .array elements => .jsonStartArray keyOrNull :: elementCalls elements ++ [.jsonEndArray]

def memberCalls : List (CString × Document) → List Call
  | [] => []
  | (key, value) :: members => value.calls (some key) ++ memberCalls members

def elementCalls : List Document → List Call
  | [] => []
  | value :: elements => value.calls none ++ elementCalls elements

end

mutual

/-- The doubles that are written. -/
def doubles : Document → List (BitVec 64)
  | .scalar (.double value) => [value]
  | .scalar _ => []
  | .object members => memberDoubles members
  | .array elements => elementDoubles elements

def memberDoubles : List (CString × Document) → List (BitVec 64)
  | [] => []
  | (_, value) :: members => value.doubles ++ memberDoubles members

def elementDoubles : List Document → List (BitVec 64)
  | [] => []
  | value :: elements => value.doubles ++ elementDoubles elements

end

end Document

/-! Their tokens -/

inductive Token
  | openBrace
  | closeBrace
  | openBracket
  | closeBracket
  | comma
  | colon
  | literal (text : List Byte)
  deriving DecidableEq

def Token.text : Token → List Byte
  | .openBrace => ascii "\x7b"
  | .closeBrace => ascii "\x7d"
  | .openBracket => ascii "["
  | .closeBracket => ascii "]"
  | .comma => ascii ","
  | .colon => ascii ":"
  | .literal text => text

/-- How a printer writes the user's texts and doubles: its mode, its conversion of a text, and
the text of a double. -/
structure Style where
  mode : JsonCharsetConversion
  convert : List Byte → List Byte
  formatDouble : BitVec 64 → List Byte

namespace Style

variable (style : Style)

def escaped (s : List Byte) : List Byte := escape style.mode (style.convert s)

def quoted (s : List Byte) : List Byte := ascii "\"" ++ style.escaped s ++ ascii "\""

def scalarText : Scalar → List Byte
  | .string value => style.quoted value.bytes
  | .jsonString value => style.convert value.bytes
  | .unterminatedJSONString value => style.convert value
  | .unterminatedString value => style.quoted value
  | .limitedString value => style.quoted (hideControlCharacters value)
  | .multipartString parts =>
    ascii "\"" ++ parts.flatMap (fun part => style.escaped part.bytes) ++ ascii "\""
  | .boolean value => if value ≠ 0 then ascii "true" else ascii "false"
  | .null => ascii "null"
  | .uint value => formatD value.toNat
  | .int value => formatD value.toInt
  | .int64 value => formatD value.toInt
  | .double value => style.formatDouble value

mutual

/-- The tokens of a value: the members of an object, each a key, a colon and a value, or the
elements of an array, with a comma between any two. -/
def tokens : Document → List Token
  | .scalar s => [.literal (style.scalarText s)]
  | .object members =>
    .openBrace :: List.intercalate [.comma] (memberTokens members) ++ [.closeBrace]
  | .array elements =>
    .openBracket :: List.intercalate [.comma] (elementTokens elements) ++ [.closeBracket]

def memberTokens : List (CString × Document) → List (List Token)
  | [] => []
  | (key, value) :: members =>
    (.literal (style.quoted key.bytes) :: .colon :: tokens value) :: memberTokens members

def elementTokens : List Document → List (List Token)
  | [] => []
  | value :: elements => tokens value :: elementTokens elements

end

end Style

def isWhite (c : Byte) : Bool := c = 0x20 || c = 0x0A

/-- A text of tokens. With pretty printing, there may be white space between them. -/
inductive Written (pretty : Bool) : List Token → List Byte → Prop
  | nil : Written pretty [] []
  | white {c : Byte} {tokens : List Token} {text : List Byte} (hpretty : pretty = true)
      (hc : isWhite c = true) (h : Written pretty tokens text) : Written pretty tokens (c :: text)
  | token (t : Token) {tokens : List Token} {text : List Byte} (h : Written pretty tokens text) :
      Written pretty (t :: tokens) (t.text ++ text)

/-! The text -/

def keyText (style : Style) (pretty : Bool) : Option CString → List Byte
  | none => []
  | some key => style.quoted key.bytes ++ if pretty then ascii ": " else ascii ":"

mutual

/-- The text of a value whose lines are indented to a depth. -/
def text (style : Style) (pretty : Bool) (depth : ℕ) : Document → List Byte
  | .scalar s => style.scalarText s
  | .object members =>
    ascii "\x7b" ++ memberText style pretty (depth + 1) .start members ++ newLine pretty depth ++
      ascii "\x7d"
  | .array elements =>
    ascii "[" ++ elementText style pretty (depth + 1) .start elements ++ newLine pretty depth ++
      ascii "]"

def memberText (style : Style) (pretty : Bool) (depth : ℕ) (layout : Layout) :
    List (CString × Document) → List Byte
  | [] => []
  | (key, value) :: members =>
    separator pretty depth layout ++ keyText style pretty (some key) ++
      text style pretty depth value ++ memberText style pretty depth .between members

def elementText (style : Style) (pretty : Bool) (depth : ℕ) (layout : Layout) :
    List Document → List Byte
  | [] => []
  | value :: elements =>
    separator pretty depth layout ++ text style pretty depth value ++
      elementText style pretty depth .between elements

end

/-! The text consists of the tokens -/

namespace Written

variable {pretty : Bool} {tokens rest : List Token} {a b : List Byte}

theorem append (ha : Written pretty tokens a) (hb : Written pretty rest b) :
    Written pretty (tokens ++ rest) (a ++ b) := by
  induction ha with
  | nil => exact hb
  | white hpretty hc _ ih => exact ih.white hpretty hc
  | token t _ ih =>
    rw [List.cons_append, List.append_assoc]
    exact ih.token t

theorem single (t : Token) : Written pretty [t] t.text := by
  have h : Written pretty [t] (t.text ++ []) := Written.nil.token t
  rwa [List.append_nil] at h

theorem blank (hpretty : pretty = true) (ha : ∀ c ∈ a, isWhite c = true) : Written pretty [] a := by
  induction a with
  | nil => exact .nil
  | cons c a ih =>
    have hrest := ih fun d hd => ha d (List.mem_cons_of_mem _ hd)
    exact hrest.white hpretty (ha c List.mem_cons_self)

end Written

theorem written_newLine (pretty : Bool) (depth : ℕ) : Written pretty [] (newLine pretty depth) := by
  unfold newLine
  cases pretty with
  | false => exact .nil
  | true =>
    apply Written.blank rfl
    intro c hc
    rcases List.mem_append.mp hc with hc | hc
    · have hall : ∀ c ∈ ascii "\n", isWhite c = true := by decide
      exact hall c hc
    · obtain ⟨line, hline, hc⟩ := List.mem_flatten.mp hc
      rw [List.eq_of_mem_replicate hline] at hc
      have hall : ∀ c ∈ indentString, isWhite c = true := by decide
      exact hall c hc

def separatorTokens : Layout → List Token
  | .between => [.comma]
  | _ => []

theorem written_separator (pretty : Bool) (depth : ℕ) (layout : Layout) :
    Written pretty (separatorTokens layout) (separator pretty depth layout) := by
  cases layout with
  | first => exact .nil
  | start => exact written_newLine pretty depth
  | between => exact (Written.single .comma).append (written_newLine pretty depth)
  | finish => exact written_newLine pretty depth

theorem written_key (style : Style) (pretty : Bool) (key : CString) :
    Written pretty [.literal (style.quoted key.bytes), .colon] (keyText style pretty (some key)) := by
  have hcolon : Written pretty [.colon] (if pretty then ascii ": " else ascii ":") := by
    cases pretty with
    | false => exact .single .colon
    | true =>
      have hblank : Written true [] (ascii " ") := Written.blank rfl (by decide)
      exact hblank.token .colon
  exact hcolon.token (.literal (style.quoted key.bytes))

/-- Siblings with a comma between any two, and one before the first unless it comes first. -/
def siblingTokens (layout : Layout) : List (List Token) → List Token
  | [] => []
  | tokens :: siblings => separatorTokens layout ++ tokens ++ siblingTokens .between siblings

theorem siblingTokens_start (siblings : List (List Token)) :
    siblingTokens .start siblings = List.intercalate [.comma] siblings := by
  have hbetween : ∀ (siblings : List (List Token)) (tokens : List Token),
      tokens ++ siblingTokens .between siblings =
        List.intercalate [.comma] (tokens :: siblings) := by
    intro siblings
    induction siblings with
    | nil =>
      intro tokens
      simp [siblingTokens]
    | cons next siblings ih =>
      intro tokens
      rw [siblingTokens, List.append_assoc, ih next]
      simp [separatorTokens, List.intercalate_cons_cons]
  cases siblings with
  | nil => simp [siblingTokens]
  | cons tokens siblings => exact hbetween siblings tokens

section

variable {style : Style} {pretty : Bool}

theorem written_members {members : List (CString × Document)}
    (ih : ∀ m ∈ members, ∀ depth, Written pretty (style.tokens m.2) (text style pretty depth m.2))
    (depth : ℕ) : ∀ layout,
    Written pretty (siblingTokens layout (style.memberTokens members))
      (memberText style pretty depth layout members) := by
  induction members with
  | nil =>
    intro layout
    rw [Style.memberTokens, siblingTokens, memberText]
    exact .nil
  | cons m members ihs =>
    obtain ⟨key, value⟩ := m
    intro layout
    have hvalue := ih (key, value) List.mem_cons_self depth
    have hmember := ((written_separator pretty depth layout).append
      (written_key style pretty key)).append hvalue
    have hrest := ihs (fun m hm => ih m (List.mem_cons_of_mem _ hm)) .between
    rw [Style.memberTokens, siblingTokens, memberText]
    have hall := hmember.append hrest
    simpa only [List.append_assoc, List.cons_append, List.nil_append] using hall

theorem written_elements {elements : List Document}
    (ih : ∀ e ∈ elements, ∀ depth, Written pretty (style.tokens e) (text style pretty depth e))
    (depth : ℕ) : ∀ layout,
    Written pretty (siblingTokens layout (style.elementTokens elements))
      (elementText style pretty depth layout elements) := by
  induction elements with
  | nil =>
    intro layout
    rw [Style.elementTokens, siblingTokens, elementText]
    exact .nil
  | cons value elements ihs =>
    intro layout
    have hvalue := ih value List.mem_cons_self depth
    have helement := (written_separator pretty depth layout).append hvalue
    have hrest := ihs (fun e he => ih e (List.mem_cons_of_mem _ he)) .between
    rw [Style.elementTokens, siblingTokens, elementText]
    exact helement.append hrest

theorem written_text (d : Document) : ∀ depth,
    Written pretty (style.tokens d) (text style pretty depth d) := by
  induction d using Document.parts_induction with
  | scalar s =>
    intro depth
    rw [Style.tokens, text]
    exact .single (.literal (style.scalarText s))
  | object members ih =>
    intro depth
    have hmembers := written_members ih (depth + 1) .start
    rw [siblingTokens_start] at hmembers
    have hbrace : Written pretty [.openBrace] _ := .single .openBrace
    have hopen := hbrace.append hmembers
    have hall := (hopen.append (written_newLine pretty depth)).append (.single .closeBrace)
    rw [Style.tokens, text]
    simpa only [List.append_nil, List.singleton_append, Token.text] using hall
  | array elements ih =>
    intro depth
    have helements := written_elements ih (depth + 1) .start
    rw [siblingTokens_start] at helements
    have hbracket : Written pretty [.openBracket] _ := .single .openBracket
    have hopen := hbracket.append helements
    have hall := (hopen.append (written_newLine pretty depth)).append (.single .closeBracket)
    rw [Style.tokens, text]
    simpa only [List.append_nil, List.singleton_append, Token.text] using hall

end

end StreamPrinter
end ZoweCommon
