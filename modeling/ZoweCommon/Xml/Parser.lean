import ZoweCommon.Xml.Tokenizer

/-! The trees that are made of the tokens. -/
namespace ZoweCommon
namespace Xml

open Ebcdic (literal)

def NODE_DEPTH_LIMIT : ℕ := 100

/-- The attributes of a node are stored in an array that never grows. -/
def NODE_ATTRIBUTES : ℕ := 4

inductive XMLNode
  | element (name : CString) (attributes : List (CString × CString)) (children : List XMLNode)
  | text (value : CString)

/-- An element with the children that are complete. The one that is open is counted too; of the
array for the children there are the slots and what `childrenLength` says of them. -/
structure OpenNode where
  name : CString
  attributes : List (CString × CString) := []
  children : List XMLNode := []
  childCount : ℕ := 0
  childrenLength : ℕ := 0
  slots : ℕ := 0

namespace OpenNode

variable (node : OpenNode)

def toNode : XMLNode := .element node.name node.attributes node.children

def storeChild (node : OpenNode) : Run OpenNode :=
  if node.childCount < node.slots then return { node with childCount := node.childCount + 1 }
  else throw .outOfBounds

/-- A place for one more child: an array that is full is copied into one of twice the size, and its
length is noted as one more. -/
def addChild : Run OpenNode :=
  if node.childCount = 0 then storeChild { node with slots := 4, childrenLength := 4 }
  else if node.childCount = node.childrenLength then
    storeChild { node with
      slots := node.childCount * 2
      childrenLength := node.childrenLength + 1 }
  else node.storeChild

def complete (child : XMLNode) : OpenNode := { node with children := node.children ++ [child] }

def addAttribute (attrName attrValue : CString) : Run OpenNode :=
  if node.attributes.length < NODE_ATTRIBUTES then
    return { node with attributes := node.attributes ++ [(attrName, attrValue)] }
  else throw .outOfBounds

end OpenNode

inductive ParseState
  | ELEMENT
  | ATTRIBUTES
  | ELEMENTS
  | DONE
  deriving DecidableEq, Repr

/-- The stack has the parents of the current node, the next one first. -/
structure NodeParser where
  p : XmlParser
  stack : List OpenNode := []
  currentNode : Option OpenNode := none
  state : ParseState := .ELEMENT
  pushbackToken : Option XMLToken := none

inductive Step
  | goesOn (m : NodeParser)
  | returns (node : Option XMLNode)

/-- The end of the input has no name. -/
def xmlTokenTypeNames : TokenType → Run (List Byte)
  | .BROKEN => return literal "broken"
  | .START_OPEN => return literal "start-open"
  | .END_OPEN => return literal "end-open"
  | .CLOSE => return literal "close"
  | .EMPTY_CLOSE => return literal "empty-close"
  | .PCDATA => return literal "pcdata"
  | .ID => return literal "id"
  | .WHITESPACE => return literal "whitespace"
  | .ATTR_EQUAL => return literal "attr-equal"
  | .ATTR_VALUE => return literal "attr-value"
  | .COMMENT => throw .undefinedBehaviour
  | .EOF => throw .undefinedBehaviour

/-- The text of a token, where it may have none. -/
def XMLToken.text (t : XMLToken) : Run CString :=
  match t.bytes with
  | some s => return s
  | none => throw .undefinedBehaviour

def ERROR_BUFFER_SIZE : ℕ := 2048

/-- The message is formatted in a buffer. The numbers of lines are left out. -/
def syntaxError (message : List Byte) : Run Step :=
  if message.length + 1 ≤ ERROR_BUFFER_SIZE then return .returns none
  else throw .undefinedBehaviour

def syntaxErrorFor (message : String) (t : XMLToken) : Run Step := do
  let name ← xmlTokenTypeNames t.type
  syntaxError (literal message ++ name)

namespace NodeParser

variable (m : NodeParser)

/-- A new element inside the current one, if there is one. -/
def enter (name : CString) : Run NodeParser :=
  match m.currentNode with
  | none => return { m with currentNode := some { name } }
  | some node =>
    if m.stack.length < NODE_DEPTH_LIMIT then do
      let node ← node.addChild
      return { m with stack := node :: m.stack, currentNode := some { name } }
    else throw .outOfBounds

def leave : NodeParser :=
  match m.stack with
  | [] => { m with state := .DONE }
  | parent :: stack =>
    match m.currentNode with
    | none => { m with currentNode := some parent, stack, state := .ELEMENTS }
    | some node =>
      { m with currentNode := some (parent.complete node.toNode), stack, state := .ELEMENTS }

def element (firstToken : XMLToken) : Run Step :=
  if firstToken.type = .START_OPEN then do
    let (idToken, p) ← getTokenNoWS m.p
    let (nextToken, p) ← getTokenNoWS p
    if idToken.type ≠ .ID then do
      let name ← xmlTokenTypeNames idToken.type
      let text ← idToken.text
      syntaxError (literal "expected id, got " ++ name ++ literal " for " ++ text.bytes)
    else do
      let name ← idToken.text
      let m ← enter { m with p } name
      match nextToken.type with
      | .ID => return .goesOn { m with state := .ATTRIBUTES, pushbackToken := some nextToken }
      | .CLOSE => return .goesOn { m with state := .ELEMENTS }
      | .EMPTY_CLOSE => return .goesOn m.leave
      | _ => syntaxErrorFor "unexpected input, type=" nextToken
  else syntaxErrorFor "expected tag start " firstToken

def attributes (idToken : XMLToken) : Run Step := do
  let (equalsToken, p) ← getTokenNoWS m.p
  let (valueToken, p) ← getTokenNoWS p
  let (nextToken, p) ← getTokenNoWS p
  if equalsToken.type ≠ .ATTR_EQUAL then syntaxErrorFor "expected '=', got " equalsToken
  else if valueToken.type ≠ .ATTR_VALUE then
    syntaxErrorFor "expected attr value string, got " valueToken
  else do
    let attrName ← idToken.text
    let attrValue ← valueToken.text
    match m.currentNode with
    | none => throw .undefinedBehaviour
    | some node => do
      let node ← node.addAttribute attrName attrValue
      let m : NodeParser := { m with p, currentNode := some node }
      match nextToken.type with
      | .CLOSE => return .goesOn { m with state := .ELEMENTS }
      | .EMPTY_CLOSE => return .goesOn m.leave
      | .ID => return .goesOn { m with pushbackToken := some nextToken }
      | _ => syntaxErrorFor "unexpected attribute close type=" nextToken

def elements (firstToken : XMLToken) : Run Step :=
  match firstToken.type with
  | .END_OPEN => do
    let (idToken, p) ← getTokenNoWS m.p
    let (nextToken, p) ← getTokenNoWS p
    if idToken.type ≠ .ID then syntaxErrorFor "expected id, " idToken
    else if nextToken.type ≠ .CLOSE then syntaxErrorFor "expected close " nextToken
    else do
      let closeName ← idToken.text
      let m : NodeParser := { m with p }
      match m.currentNode with
      | none => return .goesOn m.leave
      | some node =>
        if closeName ≠ node.name then
          syntaxErrorFor "tag name mismatch, expecting " { type := .START_OPEN }
        else return .goesOn m.leave
  | .START_OPEN =>
    return .goesOn { m with state := .ELEMENT, pushbackToken := some firstToken }
  | .PCDATA => do
    let value ← firstToken.text
    match m.currentNode with
    | none => throw .undefinedBehaviour
    | some node => do
      let node ← node.addChild
      return .goesOn { m with currentNode := some (node.complete (.text value)) }
  | _ => syntaxErrorFor "expecting element, text, or close, got " firstToken

def done (firstToken : XMLToken) : Run Step :=
  if firstToken.type = .EOF then return .returns (m.currentNode.map OpenNode.toNode)
  else syntaxErrorFor "junk after document, type=" firstToken

def takeToken : Run (XMLToken × NodeParser) :=
  match m.pushbackToken with
  | some t => return (t, { m with pushbackToken := none })
  | none => do
    let (t, p) ← getTokenNoWS m.p
    return (t, { m with p })

/-- The loop body of `parseXMLNode`. -/
def step : Run Step := do
  let (firstToken, m) ← m.takeToken
  match m.state with
  | .ELEMENT => m.element firstToken
  | .ATTRIBUTES => m.attributes firstToken
  | .ELEMENTS => m.elements firstToken
  | .DONE => m.done firstToken

end NodeParser

/-- So many turns of the loop of `parseXMLNode` at most. -/
def parseXMLNode : ℕ → NodeParser → Run (Option XMLNode)
  | 0, _ => throw .nonTermination
  | fuel + 1, m => do
    match ← m.step with
    | .goesOn m => parseXMLNode fuel m
    | .returns node => return node

end Xml
end ZoweCommon
