import Mathlib.Data.List.Forall2
import ZoweCommon.Yaml.Reader

/-! YAML documents without aliases, as trees, and the JSON they stand for. -/
namespace ZoweCommon

open CLibrary CString

inductive YamlTree
  | scalar (tag : CString) (value : List Byte) (style : YamlScalarStyle)
  | sequence (items : List YamlTree)
  | mapping (pairs : List (YamlTree × YamlTree))

namespace YamlTree

/-- Induction over a tree that needs nothing of the keys. -/
@[elab_as_elim] theorem values_induction {motive : YamlTree → Prop}
    (scalar : ∀ tag value style, motive (.scalar tag value style))
    (sequence : ∀ items, (∀ t ∈ items, motive t) → motive (.sequence items))
    (mapping : ∀ pairs, (∀ p ∈ pairs, motive p.2) → motive (.mapping pairs)) : ∀ t, motive t
  | .scalar tag value style => scalar tag value style
  | .sequence items => sequence items fun t _ => values_induction scalar sequence mapping t
  | .mapping pairs => mapping pairs fun p _ => values_induction scalar sequence mapping p.2
termination_by t => sizeOf t
decreasing_by
  · next ht =>
    have hlt := List.sizeOf_lt_of_mem ht
    simp
    omega
  · next hp =>
    have hlt := List.sizeOf_lt_of_mem hp
    cases p
    simp at hlt ⊢
    omega

mutual

/-- The tree below an index of a document. -/
def Rep (doc : YamlDocument) (index : ℤ) : YamlTree → Prop
  | .scalar tag value style => yaml_document_get_node doc index = some (.scalar tag value style)
  | .sequence items => ∃ indices, yaml_document_get_node doc index = some (.sequence indices) ∧
      RepItems doc indices items
  | .mapping pairs => ∃ indices, yaml_document_get_node doc index = some (.mapping indices) ∧
      RepPairs doc indices pairs

def RepItems (doc : YamlDocument) : List ℤ → List YamlTree → Prop
  | indices, [] => indices = []
  | indices, item :: items =>
    ∃ i indices', indices = i :: indices' ∧ Rep doc i item ∧ RepItems doc indices' items

def RepPairs (doc : YamlDocument) : List (ℤ × ℤ) → List (YamlTree × YamlTree) → Prop
  | indices, [] => indices = []
  | indices, (key, value) :: pairs => ∃ k v indices', indices = (k, v) :: indices' ∧
      Rep doc k key ∧ Rep doc v value ∧ RepPairs doc indices' pairs

end

mutual

/-- The number of sequences and mappings on the longest way down through values. -/
def height : YamlTree → ℕ
  | .scalar _ _ _ => 0
  | .sequence items => heightItems items + 1
  | .mapping pairs => heightPairs pairs + 1

def heightItems : List YamlTree → ℕ
  | [] => 0
  | item :: items => max item.height (heightItems items)

def heightPairs : List (YamlTree × YamlTree) → ℕ
  | [] => 0
  | (_, value) :: pairs => max value.height (heightPairs pairs)

end

/-- The number that a text of digits stands for. -/
def numeral (value : List Byte) : ℕ := Decimal.value (value.map fun c => c.toNat - 0x30)

/-- Whether a scalar is built as a template. -/
def isTemplate (tag : CString) (value : List Byte) (style : YamlScalarStyle) : Bool :=
  tag = YAML_STR_TAG && isSyntacticallyTemplate (value.take MAX_JSON_STRING) &&
    (style = .YAML_DOUBLE_QUOTED_SCALAR_STYLE || style = .YAML_PLAIN_SCALAR_STYLE)

/-- The object that stands for a template, if its braces are closed. -/
def templatePart (value : List Byte) : Exec (Option Json) :=
  match templateSource (makeBufferJsonPrinter makeJsonBuffer) true (ofBytes value).bytes with
  | .error _ => return none
  | .ok p => do
    let buffer ← jsonBufferTerminateString p.customObject
    return some (.object [(ZOWE_INTERNAL_TYPE, .scalar (.string ZOWE_UNEVALUATED)),
      (ofBytes (ascii "source"), .scalar (.string (ofBytes buffer.data)))])

def scalarPart (tag : CString) (value : List Byte) (style : YamlScalarStyle) : Exec (Option Json) := do
  let text := value.take MAX_JSON_STRING
  let plain := tag = YAML_STR_TAG ∧ style = .YAML_PLAIN_SCALAR_STYLE
  if tag = YAML_NULL_TAG ∨ plain ∧ isSyntacticallyNull text then return some (.scalar .null)
  else if tag = YAML_INT_TAG ∨ plain ∧ isSyntacticallyInteger text then
    let (x, valid) ← readInt text
    return if valid then some (.scalar (.int64 x)) else none
  else if tag = YAML_BOOL_TAG ∨ plain ∧ isSyntacticallyBool text then
    return if (readBool text).2 then some (.scalar (.boolean (readBool text).1)) else none
  else if tag = YAML_STR_TAG then
    if isTemplate tag value style then templatePart text
    else if style = .YAML_SINGLE_QUOTED_SCALAR_STYLE ∧ isSyntacticallyTemplate text then return none
    else return some (.scalar (.string (ofBytes text)))
  else return none

/-- The key that a node is read as, unless it is no scalar or too long. -/
def keyPart : YamlTree → Exec (Option CString)
  | .scalar _ value _ =>
    let keyLength := (BitVec.ofNat 32 value.length).toInt
    if keyLength > MAX_JSON_KEY then return none
    else if keyLength < 0 then throw .undefinedBehaviour
    else return some (ofBytes (value.take keyLength.toNat))
  | _ => return none

mutual

/-- The JSON that stands for a node, or nothing if the node is left out. -/
def part : YamlTree → Exec (Option Json)
  | .scalar tag value style => scalarPart tag value style
  | .sequence items => do return some (.array (← itemsParts items))
  | .mapping pairs => do return some (.object (← pairsParts pairs))

def itemsParts : List YamlTree → Exec (List Json)
  | [] => return []
  | item :: items => do
    let value ← part item
    return value.toList ++ (← itemsParts items)

def pairsParts : List (YamlTree × YamlTree) → Exec (List (CString × Json))
  | [] => return []
  | (keyNode, valueNode) :: pairs => do
    match ← keyNode.keyPart with
    | some key =>
      let value ← part valueNode
      return value.toList.map (key, ·) ++ (← pairsParts pairs)
    | none => pairsParts pairs

end

/-- Whether the node is a scalar that is built as a template. -/
def template : YamlTree → Bool
  | .scalar tag value style => isTemplate tag value style
  | _ => false

theorem height_lt_sequence {items : List YamlTree} {t : YamlTree} (ht : t ∈ items) :
    t.height < (sequence items).height := by
  have hle : t.height ≤ heightItems items := by
    induction items with
    | nil => simp at ht
    | cons item items ih =>
      rw [heightItems]
      rcases List.mem_cons.mp ht with rfl | ht
      · exact le_max_left _ _
      · exact (ih ht).trans (le_max_right _ _)
  rw [height]
  omega

theorem height_lt_mapping {pairs : List (YamlTree × YamlTree)} {p : YamlTree × YamlTree}
    (hp : p ∈ pairs) : p.2.height < (mapping pairs).height := by
  have hle : p.2.height ≤ heightPairs pairs := by
    induction pairs with
    | nil => simp at hp
    | cons q pairs ih =>
      obtain ⟨key, value⟩ := q
      rw [heightPairs]
      rcases List.mem_cons.mp hp with rfl | hp
      · exact le_max_left _ _
      · exact (ih hp).trans (le_max_right _ _)
  rw [height]
  omega

end YamlTree
end ZoweCommon
