import ZoweCommon.Xml.Parser
import ZoweCommon.Xml.Tokens

/-! When the parser comes to an end. -/
namespace ZoweCommon
namespace Xml

open Ebcdic (literal)

/-- A message can name the token. -/
def Named (t : XMLToken) : Prop := t.type ≠ .EOF

namespace OpenNode

def Roomy (node : OpenNode) : Prop :=
  node.childCount ≤ node.childrenLength ∧ node.childrenLength ≤ node.slots

theorem addChild_roomy {node : OpenNode} (h : node.Roomy) :
    ∃ longer, node.addChild = .ok longer ∧ longer.Roomy := by
  obtain ⟨hcount, hlength⟩ := h
  unfold addChild storeChild
  by_cases hfirst : node.childCount = 0
  · have hroom : node.childCount < 4 := by omega
    rw [if_pos hfirst, if_pos hroom]
    exact ⟨_, rfl, Nat.succ_le_of_lt hroom, le_rfl⟩
  · rw [if_neg hfirst]
    by_cases hfull : node.childCount = node.childrenLength
    · have hroom : node.childCount < node.childCount * 2 := by omega
      rw [if_pos hfull, if_pos hroom]
      refine ⟨_, rfl, Nat.succ_le_succ hcount, ?_⟩
      dsimp only
      omega
    · have hless : node.childCount < node.childrenLength := lt_of_le_of_ne hcount hfull
      rw [if_neg hfull, if_pos (hless.trans_le hlength)]
      exact ⟨_, rfl, Nat.succ_le_of_lt hless, hlength⟩

theorem addAttribute_roomy {node longer : OpenNode} {attrName attrValue : CString}
    (h : node.Roomy) (hrun : node.addAttribute attrName attrValue = .ok longer) : longer.Roomy := by
  unfold addAttribute at hrun
  split_ifs at hrun
  cases hrun
  exact h

end OpenNode

namespace NodeParser

/-- All elements that are open have slots for their children. -/
def Roomy (m : NodeParser) : Prop := ∀ node ∈ m.currentNode.toList ++ m.stack, node.Roomy

/-- What every turn of the loop begins with. -/
structure Inv (m : NodeParser) : Prop where
  pushback : ∀ t ∈ m.pushbackToken, t.type ≠ .COMMENT
  attributes : m.state = .ATTRIBUTES → ∃ t, m.pushbackToken = some t ∧ t.bytes.isSome
  elements : m.state = .ELEMENTS → m.pushbackToken = none
  currentNode : m.state ≠ .ELEMENT → m.currentNode.isSome
  roomy : m.Roomy

/-- A turn of the loop leads from one state of it to another. -/
def Steps (m m' : NodeParser) : Prop := m.step = .ok (.goesOn m')

/-- What becomes less with every turn. -/
def measure (m : NodeParser) : ℕ :=
  2 * m.p.input.length + if m.pushbackToken.isSome then 1 else 0

end NodeParser

section Messages

variable {t : XMLToken}

theorem syntaxErrorFor_returns {message : String} {result : Step}
    (h : syntaxErrorFor message t = .ok result) : result = .returns none := by
  obtain ⟨name, -, hrest⟩ := Run.bind_eq_ok.mp h
  unfold syntaxError at hrest
  split_ifs at hrest
  cases hrest
  rfl

end Messages

section Asking

variable {p : XmlParser}

theorem type_ne_comment {t : XMLToken} {after : XmlParser}
    (h : getTokenNoWS p = .ok (t, after)) : t.type ≠ .COMMENT := (getTokenNoWS_read h).2.2

end Asking

namespace NodeParser

variable {m : NodeParser} {t : XMLToken}

theorem roomy_some {node : OpenNode} (h : m.currentNode = some node) :
    m.Roomy ↔ node.Roomy ∧ ∀ parent ∈ m.stack, parent.Roomy := by
  unfold Roomy
  rw [h]
  exact List.forall_mem_cons

theorem roomy_none (h : m.currentNode = none) : m.Roomy ↔ ∀ parent ∈ m.stack, parent.Roomy := by
  unfold Roomy
  rw [h]
  exact Iff.rfl

/-- An element that has just been entered has no children. -/
theorem roomy_new (name : CString) : ({ name } : OpenNode).Roomy := ⟨le_rfl, le_rfl⟩

theorem enter_iff (hroomy : m.Roomy) (name : CString) : (∃ result, m.enter name = .ok result) ↔
    (m.currentNode.isSome → m.stack.length < NODE_DEPTH_LIMIT) := by
  unfold enter
  cases hcurrent : m.currentNode with
  | none => exact iff_of_true ⟨_, rfl⟩ nofun
  | some node =>
    dsimp only
    split_ifs with hroom
    · obtain ⟨longer, hlonger, -⟩ := OpenNode.addChild_roomy ((roomy_some hcurrent).mp hroomy).1
      rw [hlonger]
      exact iff_of_true ⟨_, rfl⟩ fun _ => hroom
    · apply iff_of_false
      · intro ⟨result, hrun⟩
        cases hrun
      · exact fun h => hroom (h rfl)

theorem enter_eq {name : CString} {m' : NodeParser} (hroomy : m.Roomy)
    (h : m.enter name = .ok m') : m'.p = m.p ∧ m'.pushbackToken = m.pushbackToken ∧
      m'.currentNode.isSome ∧ m'.Roomy := by
  unfold enter at h
  cases hcurrent : m.currentNode with
  | none =>
    rw [hcurrent] at h
    cases h
    have hstack := (roomy_none hcurrent).mp hroomy
    exact ⟨rfl, rfl, rfl, (roomy_some rfl).mpr ⟨roomy_new name, hstack⟩⟩
  | some node =>
    obtain ⟨hnode, hstack⟩ := (roomy_some hcurrent).mp hroomy
    obtain ⟨longer, hlonger, hmore⟩ := OpenNode.addChild_roomy hnode
    rw [hcurrent] at h
    dsimp only at h
    split_ifs at h
    rw [hlonger] at h
    cases h
    have hparents := List.forall_mem_cons.mpr ⟨hmore, hstack⟩
    exact ⟨rfl, rfl, rfl, (roomy_some rfl).mpr ⟨roomy_new name, hparents⟩⟩

theorem leave_eq (hroomy : m.Roomy) (hnode : m.currentNode.isSome) :
    m.leave.p = m.p ∧ m.leave.pushbackToken = m.pushbackToken ∧ m.leave.currentNode.isSome ∧
      (m.leave.state = .DONE ∨ m.leave.state = .ELEMENTS) ∧ m.leave.Roomy := by
  obtain ⟨node, hcurrent⟩ := Option.isSome_iff_exists.mp hnode
  obtain ⟨hfirst, hparents⟩ := (roomy_some hcurrent).mp hroomy
  unfold leave
  cases hstack : m.stack with
  | nil =>
    let left : NodeParser := { m with stack := [], state := .DONE }
    have hleft : left.Roomy := (@roomy_some left node hcurrent).mpr ⟨hfirst, List.forall_mem_nil _⟩
    exact ⟨rfl, rfl, hnode, .inl rfl, hleft⟩
  | cons parent stack =>
    rw [hstack] at hparents
    obtain ⟨hparent, hrest⟩ := List.forall_mem_cons.mp hparents
    let outer := parent.complete node.toNode
    let left : NodeParser := { m with currentNode := some outer, stack, state := .ELEMENTS }
    have hleft : left.Roomy := (@roomy_some left outer rfl).mpr ⟨hparent, hrest⟩
    rw [hcurrent]
    exact ⟨rfl, rfl, rfl, .inr rfl, hleft⟩

theorem text_iff {t : XMLToken} (h : t.bytes.isSome) : ∃ s, t.bytes = some s ∧ t.text = .ok s := by
  obtain ⟨s, hs⟩ := Option.isSome_iff_exists.mp h
  refine ⟨s, hs, ?_⟩
  unfold XMLToken.text
  rw [hs]
  rfl

theorem takeToken_cases {m' : NodeParser} (hrun : m.takeToken = .ok (t, m')) :
    (m.pushbackToken = some t ∧ m' = { m with pushbackToken := none }) ∨
      (m.pushbackToken = none ∧ ∃ p, getTokenNoWS m.p = .ok (t, p) ∧ m' = { m with p }) := by
  unfold takeToken at hrun
  cases hpushback : m.pushbackToken with
  | some t' =>
    rw [hpushback] at hrun
    cases hrun
    exact .inl ⟨rfl, rfl⟩
  | none =>
    rw [hpushback] at hrun
    obtain ⟨⟨t', p⟩, htoken, hrest⟩ := Run.bind_eq_ok.mp hrun
    cases hrest
    exact .inr ⟨rfl, p, htoken, rfl⟩

/-- The first token of a turn is one that is delivered, or that was pushed back. -/
theorem takeToken_kept (h : Inv m) {m' : NodeParser} (hrun : m.takeToken = .ok (t, m')) :
    m'.state = m.state ∧ m'.currentNode = m.currentNode ∧ m'.Roomy ∧ t.type ≠ .COMMENT ∧
      (m.state = .ATTRIBUTES ∨ m.state = .ELEMENTS ∧ t.type = .PCDATA → t.bytes.isSome) := by
  obtain ⟨hpushback, hm'⟩ | ⟨hpushback, p, htoken, hm'⟩ := takeToken_cases hrun
  · rw [hm']
    refine ⟨rfl, rfl, h.roomy, h.pushback t hpushback, ?_⟩
    intro hstate
    obtain hstate | ⟨hstate, -⟩ := hstate
    · obtain ⟨t', ht', hbytes⟩ := h.attributes hstate
      rw [hpushback] at ht'
      rw [Option.some.inj ht']
      exact hbytes
    · have hnone := h.elements hstate
      rw [hpushback] at hnone
      cases hnone
  · rw [hm']
    refine ⟨rfl, rfl, h.roomy, type_ne_comment htoken, ?_⟩
    intro hstate
    obtain hstate | ⟨-, htype⟩ := hstate
    · obtain ⟨t', ht', -⟩ := h.attributes hstate
      rw [hpushback] at ht'
      cases ht'
    · exact (getTokenNoWS_read htoken).1.bytes (.inr (.inl htype))

theorem not_goesOn {message : String} {m' : NodeParser} :
    syntaxErrorFor message t ≠ .ok (.goesOn m') := by
  intro hrun
  cases syntaxErrorFor_returns hrun

theorem isSome_le (o : Option XMLToken) : (if o.isSome then 1 else 0) ≤ 1 := by
  split_ifs
  · exact le_rfl
  · exact Nat.zero_le 1

theorem leave_inv (hpushback : m.pushbackToken = none) (hnode : m.currentNode.isSome)
    (hroomy : m.Roomy) : Inv m.leave ∧ m.leave.p = m.p := by
  obtain ⟨hp, hkept, hcurrent, hstate, hleft⟩ := leave_eq hroomy hnode
  rw [hpushback] at hkept
  refine ⟨⟨?_, ?_, fun _ => hkept, fun _ => hcurrent, hleft⟩, hp⟩
  · rw [hkept]
    exact nofun
  · intro hattributes
    rw [hattributes] at hstate
    exact absurd hstate (by decide)

/-- A turn that goes on from the name of an element. -/
theorem element_goesOn {m' : NodeParser} (hpushback : m.pushbackToken = none) (hroomy : m.Roomy)
    (hrun : m.element t = .ok (.goesOn m')) :
    Inv m' ∧ m'.p.input.length < m.p.input.length := by
  unfold element at hrun
  split_ifs at hrun
  · obtain ⟨⟨idToken, p⟩, hid, hrun⟩ := Run.bind_eq_ok.mp hrun
    obtain ⟨⟨nextToken, p'⟩, hnext, hrun⟩ := Run.bind_eq_ok.mp hrun
    dsimp only at hrun
    have hidRead := (getTokenNoWS_read hid).1
    have hnextRead := (getTokenNoWS_read hnext).1
    split_ifs at hrun with htype
    · obtain ⟨name, -, hrun⟩ := Run.bind_eq_ok.mp hrun
      obtain ⟨text, -, hrun⟩ := Run.bind_eq_ok.mp hrun
      unfold syntaxError at hrun
      split_ifs at hrun
      cases hrun
    · obtain ⟨name, -, hrun⟩ := Run.bind_eq_ok.mp hrun
      obtain ⟨entered, henter, hrun⟩ := Run.bind_eq_ok.mp hrun
      have hbefore : Roomy { m with p := p' } := hroomy
      obtain ⟨hp, hkept, hcurrent, hentered⟩ := enter_eq hbefore henter
      dsimp only at hp hkept
      rw [hpushback] at hkept
      have hless : entered.p.input.length < m.p.input.length := by
        have hlt := hidRead.lt (by rw [not_not.mp htype]; decide)
        have hle := hnextRead.le
        rw [hp]
        omega
      cases hnextType : nextToken.type with
      | ID =>
        rw [hnextType] at hrun
        cases hrun
        have hbytes := hnextRead.bytes (.inl hnextType)
        refine ⟨⟨?_, fun _ => ⟨_, rfl, hbytes⟩, nofun, fun _ => hcurrent, hentered⟩, hless⟩
        intro t' ht'
        rw [← Option.some.inj ht', hnextType]
        decide
      | CLOSE =>
        rw [hnextType] at hrun
        cases hrun
        refine ⟨⟨?_, nofun, fun _ => hkept, fun _ => hcurrent, hentered⟩, hless⟩
        dsimp only
        rw [hkept]
        exact nofun
      | EMPTY_CLOSE =>
        rw [hnextType] at hrun
        cases hrun
        obtain ⟨hinv, hp'⟩ := leave_inv hkept hcurrent hentered
        rw [← hp'] at hless
        exact ⟨hinv, hless⟩
      | _ =>
        rw [hnextType] at hrun
        exact absurd hrun not_goesOn
  · exact absurd hrun not_goesOn

theorem attributes_goesOn {m' : NodeParser} (hpushback : m.pushbackToken = none)
    (hstate : m.state = .ATTRIBUTES) (hroomy : m.Roomy) (hrun : m.attributes t = .ok (.goesOn m')) :
    Inv m' ∧ m'.p.input.length < m.p.input.length := by
  unfold attributes at hrun
  obtain ⟨⟨equalsToken, p⟩, hequals, hrun⟩ := Run.bind_eq_ok.mp hrun
  obtain ⟨⟨valueToken, p'⟩, hvalue, hrun⟩ := Run.bind_eq_ok.mp hrun
  obtain ⟨⟨nextToken, p''⟩, hnext, hrun⟩ := Run.bind_eq_ok.mp hrun
  dsimp only at hrun
  have hequalsRead := (getTokenNoWS_read hequals).1
  have hvalueRead := (getTokenNoWS_read hvalue).1
  have hnextRead := (getTokenNoWS_read hnext).1
  split_ifs at hrun with hequal
  · exact absurd hrun not_goesOn
  · exact absurd hrun not_goesOn
  · obtain ⟨attrName, -, hrun⟩ := Run.bind_eq_ok.mp hrun
    obtain ⟨attrValue, -, hrun⟩ := Run.bind_eq_ok.mp hrun
    have hless : p''.input.length < m.p.input.length := by
      have hlt := hequalsRead.lt (by rw [not_not.mp hequal]; decide)
      have hle := hvalueRead.le
      have hle' := hnextRead.le
      omega
    cases hcurrent : m.currentNode with
    | none =>
      rw [hcurrent] at hrun
      cases hrun
    | some node =>
      rw [hcurrent] at hrun
      obtain ⟨longer, hlonger, hrun⟩ := Run.bind_eq_ok.mp hrun
      have hadded : Roomy { m with p := p'', currentNode := some longer } := by
        obtain ⟨hnode, hstack⟩ := (roomy_some hcurrent).mp hroomy
        exact (roomy_some rfl).mpr ⟨OpenNode.addAttribute_roomy hnode hlonger, hstack⟩
      cases hnextType : nextToken.type with
      | CLOSE =>
        rw [hnextType] at hrun
        cases hrun
        refine ⟨⟨?_, nofun, fun _ => hpushback, fun _ => rfl, hadded⟩, hless⟩
        dsimp only
        rw [hpushback]
        exact nofun
      | EMPTY_CLOSE =>
        rw [hnextType] at hrun
        cases hrun
        obtain ⟨hinv, hp'⟩ := @leave_inv { m with p := p'', currentNode := some longer }
          hpushback rfl hadded
        refine ⟨hinv, ?_⟩
        rw [hp']
        exact hless
      | ID =>
        rw [hnextType] at hrun
        cases hrun
        have hbytes := hnextRead.bytes (.inl hnextType)
        refine ⟨⟨?_, fun _ => ⟨_, rfl, hbytes⟩, ?_, fun _ => rfl, hadded⟩, hless⟩
        · intro t' ht'
          rw [← Option.some.inj ht', hnextType]
          decide
        · intro helements
          rw [hstate] at helements
          cases helements
      | _ =>
        rw [hnextType] at hrun
        exact absurd hrun not_goesOn

/-- Only the start of an element is pushed back here, and it has been read. -/
theorem elements_goesOn {m' : NodeParser} (hpushback : m.pushbackToken = none)
    (hstate : m.state = .ELEMENTS) (hnode : m.currentNode.isSome) (hroomy : m.Roomy)
    (hrun : m.elements t = .ok (.goesOn m')) :
    Inv m' ∧ t.type ≠ .EOF ∧ m'.p.input.length ≤ m.p.input.length := by
  unfold elements at hrun
  cases htype : t.type with
  | END_OPEN =>
    rw [htype] at hrun
    obtain ⟨⟨idToken, p⟩, hid, hrun⟩ := Run.bind_eq_ok.mp hrun
    obtain ⟨⟨nextToken, p'⟩, hnext, hrun⟩ := Run.bind_eq_ok.mp hrun
    dsimp only at hrun
    have hle := (getTokenNoWS_read hnext).1.le.trans (getTokenNoWS_read hid).1.le
    split_ifs at hrun
    · exact absurd hrun not_goesOn
    · exact absurd hrun not_goesOn
    · obtain ⟨closeName, -, hrun⟩ := Run.bind_eq_ok.mp hrun
      obtain ⟨hinv, hp'⟩ := @leave_inv { m with p := p' } hpushback hnode hroomy
      have hleave : m' = leave { m with p := p' } := by
        cases hcurrent : m.currentNode with
        | none =>
          rw [hcurrent] at hrun
          cases hrun
          rfl
        | some node =>
          rw [hcurrent] at hrun
          dsimp only at hrun
          split_ifs at hrun
          · exact absurd hrun not_goesOn
          · cases hrun
            rfl
      rw [hleave, hp']
      exact ⟨hinv, nofun, hle⟩
  | START_OPEN =>
    rw [htype] at hrun
    cases hrun
    refine ⟨⟨?_, nofun, nofun, fun _ => hnode, hroomy⟩, nofun, le_rfl⟩
    intro t' ht'
    rw [← Option.some.inj ht', htype]
    decide
  | PCDATA =>
    rw [htype] at hrun
    obtain ⟨value, -, hrun⟩ := Run.bind_eq_ok.mp hrun
    cases hcurrent : m.currentNode with
    | none =>
      rw [hcurrent] at hrun
      cases hrun
    | some node =>
      obtain ⟨hfirst, hstack⟩ := (roomy_some hcurrent).mp hroomy
      obtain ⟨longer, hlonger, hmore⟩ := OpenNode.addChild_roomy hfirst
      rw [hcurrent] at hrun
      dsimp only at hrun
      rw [hlonger] at hrun
      cases hrun
      have hadded := (@roomy_some { m with currentNode := some (longer.complete (.text value)) }
        _ rfl).mpr ⟨hmore, hstack⟩
      refine ⟨⟨?_, ?_, fun _ => hpushback, fun _ => rfl, hadded⟩, nofun, le_rfl⟩
      · dsimp only
        rw [hpushback]
        exact nofun
      · intro hattributes
        rw [hstate] at hattributes
        cases hattributes
  | _ =>
    rw [htype] at hrun
    exact absurd hrun not_goesOn

/-- Every turn that goes on makes less of what is to be read. -/
theorem step_goesOn (h : Inv m) {m' : NodeParser} (hrun : m.Steps m') :
    Inv m' ∧ m'.measure < m.measure := by
  unfold Steps step at hrun
  obtain ⟨⟨t, taken⟩, htake, hrun⟩ := Run.bind_eq_ok.mp hrun
  obtain ⟨hstate, hcurrent, hroomy, -, -⟩ := takeToken_kept h htake
  have hle' := isSome_le m'.pushbackToken
  have htaken : taken.pushbackToken = none ∧ taken.p.input.length ≤ m.p.input.length ∧
      (m.pushbackToken = none → t.type ≠ .EOF → taken.p.input.length < m.p.input.length) := by
    obtain ⟨hpushback, hm'⟩ | ⟨hpushback, p, htoken, hm'⟩ := takeToken_cases htake
    · rw [hm']
      refine ⟨rfl, le_rfl, fun hnone => ?_⟩
      rw [hpushback] at hnone
      cases hnone
    · have hread := (getTokenNoWS_read htoken).1
      rw [hm']
      exact ⟨hpushback, hread.le, fun _ => hread.lt⟩
  obtain ⟨hpushback, hle, hlt⟩ := htaken
  have hnode : m.state ≠ .ELEMENT → taken.currentNode.isSome := by
    rw [hcurrent]
    exact h.currentNode
  dsimp only at hrun
  rw [hstate] at hrun
  unfold measure
  cases hm : m.state with
  | ELEMENT =>
    rw [hm] at hrun
    obtain ⟨hinv, hless⟩ := element_goesOn hpushback hroomy hrun
    refine ⟨hinv, ?_⟩
    omega
  | ATTRIBUTES =>
    rw [hm] at hrun
    obtain ⟨hinv, hless⟩ := attributes_goesOn hpushback (hstate.trans hm) hroomy hrun
    refine ⟨hinv, ?_⟩
    omega
  | ELEMENTS =>
    rw [hm] at hrun
    obtain ⟨hinv, heof, hless⟩ :=
      elements_goesOn hpushback (hstate.trans hm) (hnode (by rw [hm]; decide)) hroomy hrun
    have hshorter := hlt (h.elements hm) heof
    refine ⟨hinv, ?_⟩
    omega
  | DONE =>
    rw [hm] at hrun
    unfold done at hrun
    split_ifs at hrun
    · cases hrun
    · exact absurd hrun not_goesOn

end NodeParser

section Runs

open NodeParser

variable {m : NodeParser}

/-- The parser of a text, before its first turn. -/
def start (s : List Byte) : NodeParser := { p := makeXmlStringParser s }

theorem inv_start (s : List Byte) : Inv (start s) := ⟨nofun, nofun, fun _ => rfl, nofun, nofun⟩

end Runs

end Xml
end ZoweCommon
