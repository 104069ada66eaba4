import ZoweCommon.Xml.ParserEnds

/-! Where the parser stores what it reads. -/
namespace ZoweCommon
namespace Xml

open Ebcdic (literal)

/-- A run that stores nothing outside of an array. -/
def Contained {α : Type} (run : Run α) : Prop := run ≠ .error .outOfBounds

/-- There is room for the token at the start of what is left, or for as much as is read of it. -/
def StoreRoom (p : XmlParser) : Prop :=
  match p.input with
  | [] => True
  | b :: input =>
    if b = LESS ∨ b = SLASH ∧ p.tokenState = .TAG ∨ b = GREATER then True
    else if p.tokenState = .TAG then
      if startsId b then (input.takeWhile continuesId).length < BAOS_MAX
      else if b = EQUAL then True
      else if b = QUOTE ∨ b = APOSTROPHE then (input.takeWhile (inValue b)).length ≤ BAOS_MAX
      else isWhitespace b → (input.takeWhile isWhitespace).length ≤ BAOS_MAX
    else TextFits p.tokenState p.charSequence 1 input

/-- There is room for a token and for what is skipped before it, and what must hold of the token. -/
def AsksRoom (p : XmlParser) (Q : XMLToken → XmlParser → Prop) : Prop :=
  (∀ q, Relation.ReflTransGen Skips p q → StoreRoom q) ∧
    ∀ t after, getTokenNoWS p = .ok (t, after) → Q t after

namespace NodeParser

/-- What must hold of the first token of a turn. -/
def FirstRoom (m : NodeParser) (Q : XMLToken → NodeParser → Prop) : Prop :=
  match m.pushbackToken with
  | some t => Q t { m with pushbackToken := none }
  | none => AsksRoom m.p fun t p => Q t { m with p }

/-- There is room for what a turn of the loop stores: for the characters of its tokens, on the stack
for the element that a new one is in, and for an attribute. -/
def StoresFit (m : NodeParser) : Prop :=
  m.FirstRoom fun t m =>
    match m.state with
    | .ELEMENT =>
      t.type = .START_OPEN → AsksRoom m.p fun idToken p => AsksRoom p fun _ _ =>
        idToken.type = .ID → m.currentNode.isSome → m.stack.length < NODE_DEPTH_LIMIT
    | .ATTRIBUTES =>
      AsksRoom m.p fun equalsToken p => AsksRoom p fun valueToken p => AsksRoom p fun _ _ =>
        equalsToken.type = .ATTR_EQUAL → valueToken.type = .ATTR_VALUE →
          ∀ node ∈ m.currentNode, node.attributes.length < NODE_ATTRIBUTES
    | .ELEMENTS =>
      t.type = .END_OPEN → AsksRoom m.p fun _ p => AsksRoom p fun _ _ => True
    | .DONE => True

end NodeParser

section Containing

variable {α β : Type} {run : Run α} {f : α → Run β}

theorem contained_ok (a : α) : Contained (.ok a : Run α) := nofun

theorem contained_error {fault : XmlFault} :
    Contained (.error fault : Run α) ↔ fault ≠ .outOfBounds :=
  not_congr ⟨Except.error.inj, congrArg _⟩

theorem contained_bind :
    Contained (run >>= f) ↔ Contained run ∧ ∀ a, run = .ok a → Contained (f a) := by
  cases run with
  | error fault =>
    have hfault : (Except.error fault >>= f) = .error fault := rfl
    rw [hfault, and_iff_left nofun, contained_error, contained_error]
  | ok a =>
    rw [Run.ok_bind, and_iff_right (contained_ok a)]
    constructor
    · intro h a' heq
      rw [← Except.ok.inj heq]
      exact h
    · exact fun h => h a rfl

/-- Where nothing else can go wrong. -/
theorem contained_iff_ok (h : ∀ fault, run = .error fault → fault = .outOfBounds) :
    Contained run ↔ ∃ a, run = .ok a := by
  cases run with
  | error fault =>
    apply iff_of_false
    · exact fun hno => hno (congrArg _ (h fault rfl))
    · exact nofun
  | ok a => exact iff_of_true (contained_ok a) ⟨a, rfl⟩

end Containing

section Tokens

variable {p : XmlParser} {b : Byte} {input : List Byte}

theorem fault_writeBAOS {bytes : List Byte} {fault : XmlFault}
    (h : writeBAOS bytes b = .error fault) : fault = .outOfBounds := by
  unfold writeBAOS at h
  split_ifs at h
  · cases h
  · cases h
    rfl

theorem fault_storeChar {charSequence : List Byte} {fault : XmlFault}
    (h : storeChar charSequence b = .error fault) : fault = .outOfBounds := by
  unfold storeChar at h
  split_ifs at h
  · cases h
  · cases h
    rfl

theorem Run.bind_eq_error {α β : Type} {run : Run α} {f : α → Run β} {fault : XmlFault}
    (h : (run >>= f) = .error fault) :
    run = .error fault ∨ ∃ a, run = .ok a ∧ f a = .error fault := by
  cases run with
  | error fault' => exact .inl (congrArg _ (Except.error.inj h))
  | ok a => exact .inr ⟨a, rfl, h⟩

theorem fault_readText {tokenState : TokenState} {charSequence bytes text : List Byte}
    {fault : XmlFault} (h : readText tokenState charSequence bytes text = .error fault) :
    fault = .outOfBounds := by
  induction text generalizing tokenState charSequence bytes with
  | nil => cases h
  | cons b text ih =>
    rw [readText] at h
    split_ifs at h
    · cases h
    · cases h
    · exact ih h
    · cases h
    · obtain hstore | ⟨_, -, hrest⟩ := Run.bind_eq_error h
      · exact fault_storeChar hstore
      · cases hentity : entity charSequence with
        | none =>
          rw [hentity] at hrest
          cases hrest
        | some c =>
          rw [hentity] at hrest
          obtain hstore | ⟨_, -, hrest⟩ := Run.bind_eq_error hrest
          · exact fault_writeBAOS hstore
          · exact ih hrest
    · obtain hstore | ⟨_, -, hrest⟩ := Run.bind_eq_error h
      · exact fault_storeChar hstore
      · exact ih hrest
    · obtain hstore | ⟨_, -, hrest⟩ := Run.bind_eq_error h
      · exact fault_writeBAOS hstore
      · exact ih hrest

theorem contained_readCommentTail (hyphenCount : Fin 3) (text : List Byte) :
    Contained (readCommentTail hyphenCount text) := by
  induction text generalizing hyphenCount with
  | nil =>
    rw [readCommentTail]
    split_ifs
    · exact contained_ok _
    · exact contained_error.mpr (by decide)
  | cons b text ih =>
    rw [readCommentTail]
    split_ifs
    · exact contained_ok _
    · exact contained_ok _
    · exact ih _
    · exact ih _

theorem contained_readOpen : Contained (readOpen p input) := by
  unfold readOpen
  obtain _ | ⟨b, more⟩ := input
  · exact nofun
  dsimp only
  split_ifs
  · exact nofun
  · obtain _ | ⟨b₁, _ | ⟨b₂, text⟩⟩ := more
    · exact nofun
    · exact nofun
    · dsimp only
      split_ifs
      · apply contained_bind.mpr
        refine ⟨contained_readCommentTail _ _, ?_⟩
        intro result hrun
        cases result with
        | none => exact nofun
        | some rest => exact nofun
      · exact nofun
  · exact nofun

theorem contained_readWhile {q : Byte → Bool} {type : TokenType} (hq : q 0 = false)
    {bytes : List Byte} (hbytes : bytes.length ≤ BAOS_MAX) :
    Contained (do let (t, input) ← readWhile q type bytes input
                  return some (t, { p with input }) : Run (Option (XMLToken × XmlParser))) ↔
      bytes.length + (input.takeWhile q).length ≤ BAOS_MAX := by
  rw [readWhile_eq hq hbytes]
  split_ifs with hroom
  · exact iff_of_true nofun hroom
  · exact iff_of_false (fun h => h rfl) hroom

theorem contained_readInTag : Contained (readInTag p b input) ↔
    if startsId b then (input.takeWhile continuesId).length < BAOS_MAX
    else if b = EQUAL then True
    else if b = QUOTE ∨ b = APOSTROPHE then (input.takeWhile (inValue b)).length ≤ BAOS_MAX
    else isWhitespace b → (input.takeWhile isWhitespace).length ≤ BAOS_MAX := by
  unfold readInTag
  split_ifs with hid hequal hquote hblank
  · have hfirst : writeBAOS [] b = .ok [b] := writeBAOS_room (by decide)
    have hone : [b].length ≤ BAOS_MAX := by
      rw [List.length_singleton]
      decide
    rw [hfirst, Run.ok_bind, contained_readWhile (by decide) hone, List.length_singleton]
    omega
  · exact iff_of_true nofun trivial
  · rw [readValue_eq (Nat.zero_le _), List.length_nil, Nat.zero_add]
    split_ifs with hroom
    · apply iff_of_true
      · rw [Run.ok_bind]
        split
        · exact nofun
        · exact nofun
      · exact hroom
    · exact iff_of_false (fun h => h rfl) hroom
  · rw [contained_readWhile (by decide) (Nat.zero_le _), List.length_nil, Nat.zero_add]
    exact ⟨fun h _ => h, fun h => h hblank⟩
  · exact iff_of_true nofun fun h => absurd h hblank

/-- Where a token is made, there is room for it exactly if nothing else is written. -/
theorem contained_getXMLToken : Contained (getXMLToken p) ↔ StoreRoom p := by
  unfold getXMLToken StoreRoom
  cases p.input with
  | nil => exact iff_of_true nofun trivial
  | cons b input =>
    dsimp only
    by_cases hless : b = LESS
    · rw [if_pos hless, if_pos (.inl hless)]
      exact iff_of_true contained_readOpen trivial
    by_cases hslash : b = SLASH ∧ p.tokenState = .TAG
    · rw [if_neg hless, if_pos hslash, if_pos (.inr (.inl hslash))]
      apply iff_of_true
      · cases input with
        | nil => exact nofun
        | cons c input =>
          dsimp only
          split_ifs
          · exact nofun
          · exact nofun
      · trivial
    by_cases hgreater : b = GREATER
    · rw [if_neg hless, if_neg hslash, if_pos hgreater, if_pos (.inr (.inr hgreater))]
      exact iff_of_true nofun trivial
    rw [if_neg hless, if_neg hslash, if_neg hgreater,
      if_neg (not_or.mpr ⟨hless, not_or.mpr ⟨hslash, hgreater⟩⟩)]
    by_cases htag : p.tokenState = .TAG
    · rw [if_pos htag, if_pos htag]
      exact contained_readInTag
    · have hfirst : writeBAOS [] b = .ok [b] := writeBAOS_room (by decide)
      have hread := readText_iff p.tokenState p.charSequence [b] input
      rw [← contained_iff_ok fun _ => fault_readText, List.length_singleton] at hread
      rw [if_neg htag, if_neg htag, hfirst, Run.ok_bind, ← hread, contained_bind]
      exact and_iff_left fun _ _ => nofun

end Tokens

section Asking

variable {p after : XmlParser}

theorem roomy_of_skip (hskip : Skips p after) :
    (∀ q, Relation.ReflTransGen Skips p q → StoreRoom q) ↔
      ∀ q, Relation.ReflTransGen Skips after q → StoreRoom q := by
  have hskip' := hskip
  obtain ⟨t, hrun, -⟩ := hskip
  constructor
  · exact fun h q hskips => h q (.head hskip' hskips)
  · intro h q hskips
    obtain rfl | ⟨next, ⟨t', hother, -⟩, hrest⟩ := Relation.ReflTransGen.cases_head hskips
    · apply contained_getXMLToken.mp
      rw [hrun]
      exact nofun
    · rw [hrun] at hother
      cases hother
      exact h q hrest

/-- Where nothing is skipped. -/
theorem roomy_here (h : ∀ next, ¬Skips p next) :
    (∀ q, Relation.ReflTransGen Skips p q → StoreRoom q) ↔ Contained (getXMLToken p) := by
  rw [contained_getXMLToken]
  constructor
  · exact fun hall => hall p .refl
  · intro hroom q hskips
    obtain rfl | ⟨next, hskip, -⟩ := Relation.ReflTransGen.cases_head hskips
    · exact hroom
    · exact absurd hskip (h next)

theorem contained_getTokenNoWSFrom {fuel : ℕ} (hfuel : p.input.length < fuel) :
    Contained (getTokenNoWSFrom fuel p) ↔
      ∀ q, Relation.ReflTransGen Skips p q → StoreRoom q := by
  induction fuel generalizing p with
  | zero => exact absurd hfuel (Nat.not_lt_zero _)
  | succ fuel ih =>
    rw [getTokenNoWSFrom]
    cases hrun : getXMLToken p with
    | error fault =>
      rw [roomy_here, hrun]
      · exact contained_error.trans contained_error.symm
      · intro next hskip
        obtain ⟨t, hother, -⟩ := hskip
        rw [hrun] at hother
        cases hother
    | ok result =>
      rw [Run.ok_bind]
      obtain _ | ⟨t, after⟩ := result
      · rw [roomy_here, hrun]
        · exact iff_of_true (contained_error.mpr (by decide)) (contained_ok _)
        · intro next hskip
          obtain ⟨t, hother, -⟩ := hskip
          rw [hrun] at hother
          cases hother
      · dsimp only
        split_ifs with htype
        · rw [roomy_here, hrun]
          · exact iff_of_true (contained_ok _) (contained_ok _)
          · intro next hskip
            obtain ⟨t', hother, hkind⟩ := hskip
            rw [hrun] at hother
            cases hother
            exact absurd hkind (not_or.mpr htype)
        · have hkind : t.type = .WHITESPACE ∨ t.type = .COMMENT := by
            rw [not_and_or, not_not, not_not] at htype
            exact htype
          have heof : t.type ≠ .EOF := by
            intro heof
            rw [heof] at hkind
            exact absurd hkind (by decide)
          have hlt := (getXMLToken_read hrun).lt heof
          rw [ih (by omega), roomy_of_skip ⟨t, hrun, hkind⟩]

theorem contained_asks {α : Type} {f : XMLToken × XmlParser → Run α}
    {Q : XMLToken → XmlParser → Prop}
    (h : ∀ t after, getTokenNoWS p = .ok (t, after) → (Contained (f (t, after)) ↔ Q t after)) :
    Contained (getTokenNoWS p >>= f) ↔ AsksRoom p Q := by
  have hroom : Contained (getTokenNoWS p) ↔ _ :=
    contained_getTokenNoWSFrom (Nat.lt_succ_self p.input.length)
  unfold AsksRoom
  rw [contained_bind, hroom, Prod.forall]
  apply and_congr_right
  intro _
  constructor
  · exact fun hall t after hrun => (h t after hrun).mp (hall t after hrun)
  · exact fun hall t after hrun => (h t after hrun).mpr (hall t after hrun)

end Asking

namespace NodeParser

variable {m : NodeParser} {t : XMLToken}

theorem contained_syntaxErrorFor (message : String) : Contained (syntaxErrorFor message t) := by
  unfold syntaxErrorFor syntaxError
  apply contained_bind.mpr
  constructor
  · cases t.type with
    | _ => exact nofun
  · intro name _
    split_ifs
    · exact nofun
    · exact nofun

theorem contained_text : Contained t.text := by
  unfold XMLToken.text
  cases t.bytes with
  | none => exact nofun
  | some s => exact nofun

theorem contained_enter (hroomy : m.Roomy) (name : CString) : Contained (m.enter name) ↔
    (m.currentNode.isSome → m.stack.length < NODE_DEPTH_LIMIT) := by
  rw [← enter_iff hroomy name]
  apply contained_iff_ok
  intro fault h
  unfold enter at h
  cases hcurrent : m.currentNode with
  | none =>
    rw [hcurrent] at h
    cases h
  | some node =>
    obtain ⟨longer, hlonger, -⟩ := OpenNode.addChild_roomy ((roomy_some hcurrent).mp hroomy).1
    rw [hcurrent] at h
    dsimp only at h
    split_ifs at h
    · rw [hlonger] at h
      cases h
    · cases h
      rfl

theorem contained_element (hroomy : m.Roomy) : Contained (m.element t) ↔
    (t.type = .START_OPEN → AsksRoom m.p fun idToken p => AsksRoom p fun _ _ =>
      idToken.type = .ID → m.currentNode.isSome → m.stack.length < NODE_DEPTH_LIMIT) := by
  unfold element
  split_ifs with hopen
  · rw [forall_prop_of_true hopen]
    apply contained_asks
    intro idToken p hid
    apply contained_asks
    intro nextToken p' hnext
    dsimp only
    by_cases htype : idToken.type = .ID
    · obtain ⟨name, -, htext⟩ := text_iff ((getTokenNoWS_read hid).1.bytes (.inl htype))
      have henter := @contained_enter { m with p := p' } hroomy name
      rw [if_neg (not_not.mpr htype), htext, Run.ok_bind, forall_prop_of_true htype, ← henter,
        contained_bind]
      apply and_iff_left
      intro entered _
      cases nextToken.type with
      | ID | CLOSE | EMPTY_CLOSE => exact nofun
      | _ => exact contained_syntaxErrorFor _
    · rw [if_pos htype]
      refine iff_of_true ?_ fun h => absurd h htype
      apply contained_bind.mpr
      constructor
      · cases idToken.type with
        | _ => exact nofun
      · intro name _
        apply contained_bind.mpr
        refine ⟨contained_text, ?_⟩
        intro text _
        unfold syntaxError
        split_ifs
        · exact nofun
        · exact nofun
  · exact iff_of_true (contained_syntaxErrorFor _) fun h => absurd h hopen

theorem contained_attributes (hnode : m.currentNode.isSome) (hbytes : t.bytes.isSome) :
    Contained (m.attributes t) ↔
      AsksRoom m.p fun equalsToken p => AsksRoom p fun valueToken p => AsksRoom p fun _ _ =>
        equalsToken.type = .ATTR_EQUAL → valueToken.type = .ATTR_VALUE →
          ∀ node ∈ m.currentNode, node.attributes.length < NODE_ATTRIBUTES := by
  unfold attributes
  apply contained_asks
  intro equalsToken p hequals
  apply contained_asks
  intro valueToken p' hvalue
  apply contained_asks
  intro nextToken p'' hnext
  dsimp only
  by_cases hequal : equalsToken.type = .ATTR_EQUAL
  · rw [if_neg (not_not.mpr hequal), forall_prop_of_true hequal]
    by_cases htype : valueToken.type = .ATTR_VALUE
    · obtain ⟨attrName, -, hname⟩ := text_iff hbytes
      obtain ⟨attrValue, -, htext⟩ :=
        text_iff ((getTokenNoWS_read hvalue).1.bytes (.inr (.inr htype)))
      obtain ⟨node, hcurrent⟩ := Option.isSome_iff_exists.mp hnode
      have hroom : (∀ node ∈ m.currentNode, node.attributes.length < NODE_ATTRIBUTES) ↔
          node.attributes.length < NODE_ATTRIBUTES := by
        rw [hcurrent]
        exact ⟨fun h => h node rfl, fun h _ hmem => Option.some.inj hmem ▸ h⟩
      rw [if_neg (not_not.mpr htype), forall_prop_of_true htype, hroom, hname, Run.ok_bind, htext,
        Run.ok_bind, hcurrent]
      dsimp only
      unfold OpenNode.addAttribute
      split_ifs with hfits
      · rw [Run.pure_eq_ok, Run.ok_bind]
        refine iff_of_true ?_ hfits
        cases nextToken.type with
        | ID | CLOSE | EMPTY_CLOSE => exact nofun
        | _ => exact contained_syntaxErrorFor _
      · exact iff_of_false (fun h => h rfl) hfits
    · rw [if_pos htype]
      exact iff_of_true (contained_syntaxErrorFor _) fun h => absurd h htype
  · rw [if_pos hequal]
    exact iff_of_true (contained_syntaxErrorFor _) fun h => absurd h hequal

theorem contained_elements (hnode : m.currentNode.isSome) (hroomy : m.Roomy) :
    Contained (m.elements t) ↔
      (t.type = .END_OPEN → AsksRoom m.p fun _ p => AsksRoom p fun _ _ => True) := by
  obtain ⟨node, hcurrent⟩ := Option.isSome_iff_exists.mp hnode
  unfold elements
  cases htype : t.type with
  | END_OPEN =>
    rw [forall_prop_of_true rfl]
    apply contained_asks
    intro idToken p hid
    apply contained_asks
    intro nextToken p' hnext
    refine iff_of_true ?_ trivial
    dsimp only
    split_ifs
    · exact contained_syntaxErrorFor _
    · exact contained_syntaxErrorFor _
    · apply contained_bind.mpr
      refine ⟨contained_text, ?_⟩
      intro closeName _
      rw [hcurrent]
      dsimp only
      split_ifs
      · exact contained_syntaxErrorFor _
      · exact nofun
  | START_OPEN => exact iff_of_true nofun nofun
  | PCDATA =>
    obtain ⟨longer, hlonger, -⟩ := OpenNode.addChild_roomy ((roomy_some hcurrent).mp hroomy).1
    refine iff_of_true ?_ nofun
    apply contained_bind.mpr
    refine ⟨contained_text, ?_⟩
    intro value _
    rw [hcurrent]
    dsimp only
    rw [hlonger]
    exact nofun
  | _ => exact iff_of_true (contained_syntaxErrorFor _) nofun

theorem contained_firstToken {f : XMLToken × NodeParser → Run Step}
    {Q : XMLToken → NodeParser → Prop}
    (h : ∀ t m', m.takeToken = .ok (t, m') → (Contained (f (t, m')) ↔ Q t m')) :
    Contained (m.takeToken >>= f) ↔ m.FirstRoom Q := by
  unfold FirstRoom
  cases hpushback : m.pushbackToken with
  | some t =>
    have htake : m.takeToken = .ok (t, { m with pushbackToken := none }) := by
      unfold takeToken
      rw [hpushback]
      rfl
    rw [htake, Run.ok_bind]
    exact h t _ htake
  | none =>
    have htake : m.takeToken = (getTokenNoWS m.p >>= fun r => .ok (r.1, { m with p := r.2 })) := by
      unfold takeToken
      rw [hpushback]
      rfl
    rw [htake, bind_assoc]
    apply contained_asks
    intro t p hrun
    have hkept := h t { m with p } (by rw [htake, hrun]; rfl)
    rw [Run.ok_bind, hpushback]
    rw [hpushback] at hkept
    exact hkept

/-- A turn of the loop stores nothing outside of an array exactly if there is room. -/
theorem contained_step (h : Inv m) : Contained m.step ↔ m.StoresFit := by
  unfold step StoresFit
  apply contained_firstToken
  intro t m' hrun
  obtain ⟨hstate, hcurrent, hroomy, hcomment, hbytes⟩ := takeToken_kept h hrun
  have hnode : m.state ≠ .ELEMENT → m'.currentNode.isSome := by
    rw [hcurrent]
    exact h.currentNode
  dsimp only
  rw [hstate]
  cases hm : m.state with
  | ELEMENT => exact contained_element hroomy
  | ATTRIBUTES => exact contained_attributes (hnode (by rw [hm]; decide)) (hbytes (.inl hm))
  | ELEMENTS => exact contained_elements (hnode (by rw [hm]; decide)) hroomy
  | DONE =>
    refine iff_of_true ?_ trivial
    unfold done
    split_ifs
    · exact nofun
    · exact contained_syntaxErrorFor _

end NodeParser

section Runs

open NodeParser

variable {m : NodeParser}

theorem contained_of_steps (h : ∀ fuel, Contained (parseXMLNode fuel m)) {m' : NodeParser}
    (hsteps : Relation.ReflTransGen Steps m m') : Contained m'.step := by
  induction hsteps using Relation.ReflTransGen.head_induction_on with
  | refl =>
    have hone := h 1
    rw [parseXMLNode] at hone
    exact (contained_bind.mp hone).1
  | head hstep _ ih =>
    apply ih
    intro fuel
    have hmore := h (fuel + 1)
    rw [parseXMLNode, hstep, Run.ok_bind] at hmore
    exact hmore

theorem contained_parseXMLNode (hm : Inv m)
    (h : ∀ m', Relation.ReflTransGen Steps m m' → m'.StoresFit) (fuel : ℕ) :
    Contained (parseXMLNode fuel m) := by
  induction fuel generalizing m with
  | zero => exact contained_error.mpr (by decide)
  | succ fuel ih =>
    rw [parseXMLNode]
    apply contained_bind.mpr
    refine ⟨(contained_step hm).mpr (h m .refl), ?_⟩
    intro result hstep
    cases result with
    | returns node => exact contained_ok _
    | goesOn next =>
      exact ih (step_goesOn hm hstep).1 fun m' hsteps => h m' (.head hstep hsteps)

theorem inv_of_steps (hm : Inv m) {m' : NodeParser} (hsteps : Relation.ReflTransGen Steps m m') :
    Inv m' := by
  induction hsteps with
  | refl => exact hm
  | tail _ hstep ih => exact (step_goesOn ih hstep).1

end Runs

/-- The parser stores all that it reads of a text in its arrays, exactly if there is room in every
turn of its loop that it comes to. -/
theorem parse_contained_iff (s : List Byte) :
    (∀ fuel, parseXMLNode fuel (start s) ≠ .error .outOfBounds) ↔
      ∀ m, Relation.ReflTransGen NodeParser.Steps (start s) m → m.StoresFit := by
  constructor
  · intro h m hsteps
    exact (NodeParser.contained_step (inv_of_steps (inv_start s) hsteps)).mp
      (contained_of_steps h hsteps)
  · exact fun h fuel => contained_parseXMLNode (inv_start s) h fuel

/-- An ampersand that is meant as one: what follows it is stored up to the next semicolon. -/
theorem not_parse_contained :
    ¬∀ fuel, parseXMLNode fuel (start (literal "<a>this & that, and more</a>")) ≠
      .error .outOfBounds := by
  intro h
  exact h 2 rfl

end Xml
end ZoweCommon
