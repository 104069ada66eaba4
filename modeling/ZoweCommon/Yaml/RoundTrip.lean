import ZoweCommon.Yaml.Emitter
import ZoweCommon.Yaml.ReaderCorrect

/-! JSON that is emitted as YAML, loaded and converted back. -/
namespace ZoweCommon

open CLibrary CString

/-- A node that is emitted with implicit tags. -/
inductive ImplicitNode
  | scalar (value : List Byte) (style : YamlScalarStyle)
  | sequence (items : List ImplicitNode)
  | mapping (pairs : List (List Byte × ImplicitNode))

namespace ImplicitNode

mutual

def events : ImplicitNode → List YamlEvent
  | .scalar value style => [.scalar YAML_STR_TAG value true true style]
  | .sequence items => .sequenceStart YAML_SEQ_TAG true :: (itemsEvents items ++ [.sequenceEnd])
  | .mapping pairs => .mappingStart YAML_MAP_TAG true :: (pairsEvents pairs ++ [.mappingEnd])

def itemsEvents : List ImplicitNode → List YamlEvent
  | [] => []
  | item :: items => events item ++ itemsEvents items

def pairsEvents : List (List Byte × ImplicitNode) → List YamlEvent
  | [] => []
  | (key, value) :: pairs =>
    .scalar YAML_STR_TAG key true false .YAML_PLAIN_SCALAR_STYLE :: (events value ++ pairsEvents pairs)

end

def documentEvents (node : ImplicitNode) : List YamlEvent :=
  .streamStart :: .documentStart false :: (node.events ++ [.documentEnd false, .streamEnd])

mutual

/-- The tree has the same structure, texts and styles, and default tags; of a key only the text
counts. -/
def LoadedAs : ImplicitNode → YamlTree → Prop
  | .scalar value style, t => t = .scalar YAML_STR_TAG value style
  | .sequence items, t => ∃ ts, t = .sequence ts ∧ LoadedItems items ts
  | .mapping pairs, t => ∃ ps, t = .mapping ps ∧ LoadedPairs pairs ps

def LoadedItems : List ImplicitNode → List YamlTree → Prop
  | [], ts => ts = []
  | item :: items, ts => ∃ t ts', ts = t :: ts' ∧ LoadedAs item t ∧ LoadedItems items ts'

def LoadedPairs : List (List Byte × ImplicitNode) → List (YamlTree × YamlTree) → Prop
  | [], ps => ps = []
  | (key, value) :: pairs, ps => ∃ tag style t ps', ps = (.scalar tag key style, t) :: ps' ∧
      LoadedAs value t ∧ LoadedPairs pairs ps'

end

end ImplicitNode

/-- The emitter and the loader. What one has written, the other can read. -/
structure LibYaml (σ : Type) where
  yaml_emitter_emit : YamlEvent → σ → Bool × σ
  yaml_parser_load : σ → Option YamlDocument

section

variable {σ : Type}

def Accepts (emit : YamlEvent → σ → Bool × σ) (emitter : σ) : List YamlEvent → σ → Prop
  | [], finish => finish = emitter
  | event :: events, finish => ∃ next, emit event emitter = (true, next) ∧ Accepts emit next events finish

def LibYaml.Reloads (lib : LibYaml σ) (start : σ) (node : ImplicitNode) : Prop :=
  ∃ finish doc t, Accepts lib.yaml_emitter_emit start node.documentEvents finish ∧
    lib.yaml_parser_load finish = some doc ∧ node.LoadedAs t ∧ t.Rep doc 1

theorem accepts_append {emit : YamlEvent → σ → Bool × σ} {events events' : List YamlEvent} :
    ∀ {emitter finish : σ}, Accepts emit emitter (events ++ events') finish ↔
      ∃ middle, Accepts emit emitter events middle ∧ Accepts emit middle events' finish := by
  induction events with
  | nil =>
    intro emitter finish
    simp [Accepts]
  | cons event events ih =>
    intro emitter finish
    rw [List.cons_append, Accepts]
    constructor
    · rintro ⟨next, hemit, hrest⟩
      obtain ⟨middle, h, h'⟩ := ih.mp hrest
      exact ⟨middle, ⟨next, hemit, h⟩, h'⟩
    · rintro ⟨middle, ⟨next, hemit, h⟩, h'⟩
      exact ⟨next, hemit, ih.mpr ⟨middle, h, h'⟩⟩

theorem accepts_singleton {emit : YamlEvent → σ → Bool × σ} {event : YamlEvent} {emitter finish : σ} :
    Accepts emit emitter [event] finish ↔ emit event emitter = (true, finish) := by
  constructor
  · rintro ⟨next, hemit, rfl⟩
    exact hemit
  · intro hemit
    exact ⟨finish, hemit, rfl⟩

theorem emitEvent_of_accepted {emit : YamlEvent → σ → Bool × σ} {event : YamlEvent} {emitter next : σ}
    (h : emit event emitter = (true, next)) (failure : ℕ) :
    emitEvent emit emitter event failure = (YAML_SUCCESS, next) := by
  unfold emitEvent
  rw [h]
  rfl

end

/-! Writing -/

/-- How a value without parts is written. -/
def emittedScalar : JsonScalar → ImplicitNode
  | .int64 n => .scalar (formatD n.toInt) .YAML_PLAIN_SCALAR_STYLE
  | .double d => .scalar (formatF d) .YAML_PLAIN_SCALAR_STYLE
  | .number n => .scalar (formatD n.toInt) .YAML_PLAIN_SCALAR_STYLE
  | .string s => .scalar s.bytes .YAML_DOUBLE_QUOTED_SCALAR_STYLE
  | .boolean b => .scalar (if b then ascii "true" else ascii "false") .YAML_PLAIN_SCALAR_STYLE
  | .null => .scalar (ascii "null") .YAML_PLAIN_SCALAR_STYLE

mutual

/-- What is written for a tree. -/
def emitted : Json → ImplicitNode
  | .scalar s => emittedScalar s
  | .object ps => .mapping (emittedProperties ps)
  | .array es => .sequence (emittedElements es)

def emittedProperties : List (CString × Json) → List (List Byte × ImplicitNode)
  | [] => []
  | (key, value) :: ps => (key.bytes, emitted value) :: emittedProperties ps

def emittedElements : List Json → List ImplicitNode
  | [] => []
  | value :: es => emitted value :: emittedElements es

end

def ScalarFits : JsonScalar → Prop
  | .string s => s.bytes.length < MAX_ACCESS_PATH
  | .double _ => False
  | _ => True

section

variable {σ : Type} {emit : YamlEvent → σ → Bool × σ}

theorem emitScalar_of_accepted {text : List Byte} {style : YamlScalarStyle} {emitter finish : σ}
    (h : Accepts emit emitter (ImplicitNode.scalar text style).events finish) (tag : CString) :
    emitScalar emit emitter text tag style = (YAML_SUCCESS, finish) := by
  rw [ImplicitNode.events, accepts_singleton] at h
  exact emitEvent_of_accepted h 1

theorem scalarBuffer_formatD {z : ℤ} (h : z.natAbs < 10 ^ 20) :
    scalarBuffer (formatD z) = .ok (formatD z) := by
  have hlength := length_formatD_le h
  unfold scalarBuffer
  rw [if_pos (by unfold MAX_ACCESS_PATH; omega)]
  rfl

theorem writeScalar {s : JsonScalar} (h : ScalarFits s) {emitter finish : σ}
    (haccepts : Accepts emit emitter (emitted (.scalar s)).events finish) :
    writeJsonAsYaml1 emit emitter (.scalar s) = .ok (YAML_SUCCESS, finish) := by
  rw [emitted] at haccepts
  cases s with
  | number n =>
    have hlo := BitVec.le_toInt n
    have hhi := BitVec.toInt_lt (x := n)
    rw [writeJsonAsYaml1, scalarBuffer_formatD (by omega), Exec.ok_bind,
      emitScalar_of_accepted haccepts]
    rfl
  | int64 n =>
    have hlo := BitVec.le_toInt n
    have hhi := BitVec.toInt_lt (x := n)
    rw [writeJsonAsYaml1, scalarBuffer_formatD (by omega), Exec.ok_bind,
      emitScalar_of_accepted haccepts]
    rfl
  | double d => exact absurd h not_false
  | string s =>
    have hbuffer : scalarBuffer s.bytes = .ok s.bytes := if_pos h
    rw [writeJsonAsYaml1, hbuffer, Exec.ok_bind, emitScalar_of_accepted haccepts]
    rfl
  | boolean b =>
    rw [writeJsonAsYaml1, emitScalar_of_accepted haccepts]
    rfl
  | null =>
    rw [writeJsonAsYaml1, emitScalar_of_accepted haccepts]
    rfl

/-- The events of a tree are written, and none fails. -/
def Writes (emit : YamlEvent → σ → Bool × σ) (j : Json) : Prop :=
  ∀ ⦃emitter finish : σ⦄, Accepts emit emitter (emitted j).events finish →
    writeJsonAsYaml1 emit emitter j = .ok (YAML_SUCCESS, finish)

theorem writeElements_ok {elements : List Json} (ih : ∀ j ∈ elements, Writes emit j) :
    ∀ {emitter finish : σ},
    Accepts emit emitter (ImplicitNode.itemsEvents (emittedElements elements)) finish →
    writeElements emit emitter elements = .ok (YAML_SUCCESS, finish) := by
  induction elements with
  | nil =>
    intro emitter finish haccepts
    rw [emittedElements, ImplicitNode.itemsEvents, Accepts] at haccepts
    rw [writeElements, haccepts]
    rfl
  | cons value elements ihs =>
    intro emitter finish haccepts
    rw [emittedElements, ImplicitNode.itemsEvents, accepts_append] at haccepts
    obtain ⟨middle, hvalue, hrest⟩ := haccepts
    rw [writeElements, ih value List.mem_cons_self hvalue, Exec.ok_bind]
    exact ihs (fun j hj => ih j (List.mem_cons_of_mem _ hj)) hrest

theorem writeProperties_ok {properties : List (CString × Json)}
    (ih : ∀ p ∈ properties, Writes emit p.2) : ∀ {emitter finish : σ},
    Accepts emit emitter (ImplicitNode.pairsEvents (emittedProperties properties)) finish →
    writeProperties emit emitter properties = .ok (YAML_SUCCESS, finish) := by
  induction properties with
  | nil =>
    intro emitter finish haccepts
    rw [emittedProperties, ImplicitNode.pairsEvents, Accepts] at haccepts
    rw [writeProperties, haccepts]
    rfl
  | cons p properties ihs =>
    obtain ⟨key, value⟩ := p
    intro emitter finish haccepts
    rw [emittedProperties, ImplicitNode.pairsEvents, Accepts] at haccepts
    obtain ⟨next, hkey, haccepts⟩ := haccepts
    obtain ⟨middle, hvalue, hrest⟩ := accepts_append.mp haccepts
    have hwrite := ih (key, value) List.mem_cons_self hvalue
    rw [writeProperties, emitEvent_of_accepted hkey]
    dsimp only
    rw [if_neg (by decide), hwrite, Exec.ok_bind]
    exact ihs (fun p hp => ih p (List.mem_cons_of_mem _ hp)) hrest

theorem writes {j : Json} {K : CString → Prop} (h : j.All ScalarFits K) : Writes emit j := by
  induction j using Json.parts_induction with
  | scalar s =>
    cases h with
    | scalar hs =>
      intro emitter finish haccepts
      exact writeScalar hs haccepts
  | object properties ih =>
    cases h with
    | object _ hvalues =>
      intro emitter finish haccepts
      rw [emitted, ImplicitNode.events, Accepts] at haccepts
      obtain ⟨next, hstart, haccepts⟩ := haccepts
      obtain ⟨middle, hproperties, hend⟩ := accepts_append.mp haccepts
      have hwrite := writeProperties_ok (fun p hp => ih p hp (hvalues p hp)) hproperties
      rw [writeJsonAsYaml1, emitEvent_of_accepted hstart]
      dsimp only
      rw [if_neg (by decide), hwrite, Exec.ok_bind]
      dsimp only
      rw [if_neg (by decide), emitEvent_of_accepted (accepts_singleton.mp hend)]
      rfl
  | array elements ih =>
    cases h with
    | array helements =>
      intro emitter finish haccepts
      rw [emitted, ImplicitNode.events, Accepts] at haccepts
      obtain ⟨next, hstart, haccepts⟩ := haccepts
      obtain ⟨middle, hitems, hend⟩ := accepts_append.mp haccepts
      have hwrite := writeElements_ok (fun j hj => ih j hj (helements j hj)) hitems
      rw [writeJsonAsYaml1, emitEvent_of_accepted hstart]
      dsimp only
      rw [if_neg (by decide), hwrite, Exec.ok_bind]
      dsimp only
      rw [if_neg (by decide), emitEvent_of_accepted (accepts_singleton.mp hend)]
      rfl

theorem emitYaml_ok {j : Json} (h : Writes emit j) {start finish : σ}
    (haccepts : Accepts emit start (emitted j).documentEvents finish) :
    emitYaml emit start j = .ok (YAML_SUCCESS, finish) := by
  obtain ⟨e₁, hstream, e₂, hdocument, haccepts⟩ := haccepts
  obtain ⟨e₃, hnode, e₄, hdocumentEnd, hstreamEnd⟩ := accepts_append.mp haccepts
  unfold emitYaml
  rw [emitEvent_of_accepted hstream]
  dsimp only
  rw [if_neg (by decide), emitEvent_of_accepted hdocument]
  dsimp only
  rw [if_neg (by decide), h hnode, Exec.ok_bind]
  dsimp only
  rw [if_neg (by decide), emitEvent_of_accepted hdocumentEnd]
  dsimp only
  rw [if_neg (by decide), emitEvent_of_accepted (accepts_singleton.mp hstreamEnd)]
  rfl

end

/-! Reading -/

/-- The integers of 32 bits and those of 64 are one. -/
def widening : Json.Rewriting where
  scalar
    | .number n => .int64 (n.signExtend 64)
    | s => s
  key := id

/-- A value that comes back: no negative integer, no double, and no string that is too long or
looks like a template. -/
def YamlScalar : JsonScalar → Prop
  | .number n => 0 ≤ n.toInt
  | .int64 n => 0 ≤ n.toInt
  | .double _ => False
  | .string s => s.bytes.length < MAX_ACCESS_PATH ∧ isSyntacticallyTemplate s.bytes = false
  | _ => True

/-- A key that is not left out. -/
def YamlKey (key : CString) : Prop := key.bytes.length ≤ MAX_JSON_KEY

theorem isDecimal_digitChars (n : ℕ) : ((Decimal.digits n).map digitChar).all isDecimal = true := by
  rw [List.all_eq_true]
  intro c hc
  obtain ⟨d, hd, rfl⟩ := List.mem_map.mp hc
  have hlt := Decimal.digits_lt hd
  have hnat := toNat_digitChar hlt
  unfold isDecimal
  rw [Bool.and_eq_true, decide_eq_true_eq, decide_eq_true_eq]
  omega

theorem numeral_digitChars (n : ℕ) : YamlTree.numeral ((Decimal.digits n).map digitChar) = n := by
  unfold YamlTree.numeral
  rw [map_digitChars, Decimal.value_digits]

theorem isSyntacticallyInteger_formatD {z : ℤ} (h : 0 ≤ z) :
    isSyntacticallyInteger (formatD z) = true := by
  obtain ⟨d, -, digits, hdigits⟩ := exists_digitChar_cons z.natAbs
  have htext := formatD_of_nonneg (not_lt.mpr h)
  unfold isSyntacticallyInteger
  rw [if_neg (by rw [htext, hdigits]; simp), htext, isDecimal_digitChars]

theorem take_formatD (n : BitVec 64) : (formatD n.toInt).take MAX_JSON_STRING = formatD n.toInt := by
  have hlo := BitVec.le_toInt n
  have hhi := BitVec.toInt_lt (x := n)
  have hlength := @length_formatD_le n.toInt (by omega)
  exact List.take_of_length_le (by unfold MAX_JSON_STRING; omega)

/-- A number that is not negative is taken for an integer. -/
theorem scalarPart_formatD {n : BitVec 64} (h : 0 ≤ n.toInt) :
    YamlTree.scalarPart YAML_STR_TAG (formatD n.toInt) .YAML_PLAIN_SCALAR_STYLE =
      .ok (some (.scalar (.int64 n))) := by
  have hhi := BitVec.toInt_lt (x := n)
  have htext := formatD_of_nonneg (not_lt.mpr h)
  have htake := take_formatD n
  have hinteger := isSyntacticallyInteger_formatD h
  have hvalue : YamlTree.numeral (formatD n.toInt) = n.toInt.natAbs := by
    rw [htext, numeral_digitChars]
  have hbits : BitVec.ofNat 64 n.toInt.natAbs = n := by
    have hcast : (n.toInt.natAbs : ℤ) = n.toInt := by omega
    rw [← BitVec.ofInt_natCast, hcast, BitVec.ofInt_toInt]
  unfold YamlTree.scalarPart
  dsimp only
  rw [htake, isSyntacticallyNull_of_integer hinteger, if_neg (by decide),
    if_pos (.inr ⟨⟨rfl, rfl⟩, hinteger⟩), readInt_ok (isSyntacticallyInteger_all hinteger) (by omega),
    hvalue, hbits]
  rfl

theorem scalarPart_string {s : CString} (hlength : s.bytes.length < MAX_ACCESS_PATH)
    (htemplate : isSyntacticallyTemplate s.bytes = false) :
    YamlTree.scalarPart YAML_STR_TAG s.bytes .YAML_DOUBLE_QUOTED_SCALAR_STYLE =
      .ok (some (.scalar (.string s))) := by
  have htake : s.bytes.take MAX_JSON_STRING = s.bytes :=
    List.take_of_length_le (by unfold MAX_ACCESS_PATH at hlength; unfold MAX_JSON_STRING; omega)
  have hplain : YAML_STR_TAG ≠ YAML_NULL_TAG ∧ YAML_STR_TAG ≠ YAML_INT_TAG ∧
      YAML_STR_TAG ≠ YAML_BOOL_TAG := by decide
  unfold YamlTree.scalarPart YamlTree.isTemplate
  dsimp only
  rw [htake, htemplate, ofBytes_bytes]
  simp [hplain]

/-- Every kind of scalar is recognised from its text and style. -/
theorem part_loadedScalar {s : JsonScalar} (h : YamlScalar s) {t : YamlTree}
    (hloaded : (emitted (.scalar s)).LoadedAs t) :
    t.part = .ok (some (.scalar (widening.scalar s))) := by
  rw [emitted] at hloaded
  cases s with
  | number n =>
    have hsame : (n.signExtend 64).toInt = n.toInt := BitVec.toInt_signExtend_of_le (by omega)
    have hscalar := scalarPart_formatD (n := n.signExtend 64) (by rwa [hsame])
    rw [hsame] at hscalar
    rw [hloaded, YamlTree.part, hscalar]
    rfl
  | int64 n =>
    rw [hloaded, YamlTree.part, scalarPart_formatD h]
    rfl
  | double d => exact absurd h not_false
  | string s =>
    rw [hloaded, YamlTree.part, scalarPart_string h.1 h.2]
    rfl
  | boolean b =>
    rw [hloaded, YamlTree.part]
    cases b <;> rfl
  | null =>
    rw [hloaded, YamlTree.part]
    rfl

def Returns (j : Json) : Prop :=
  ∀ ⦃t : YamlTree⦄, (emitted j).LoadedAs t → t.part = .ok (some (j.map widening))

theorem itemsParts_loaded {elements : List Json} (ih : ∀ j ∈ elements, Returns j) :
    ∀ {ts : List YamlTree}, ImplicitNode.LoadedItems (emittedElements elements) ts →
    YamlTree.itemsParts ts = .ok (Json.mapElements widening elements) := by
  induction elements with
  | nil =>
    intro ts hloaded
    rw [emittedElements, ImplicitNode.LoadedItems] at hloaded
    rw [hloaded]
    rfl
  | cons value elements ihs =>
    intro ts hloaded
    rw [emittedElements] at hloaded
    obtain ⟨t, ts', rfl, hvalue, hrest⟩ := hloaded
    have hjson := ih value List.mem_cons_self hvalue
    have hjsons := ihs (fun j hj => ih j (List.mem_cons_of_mem _ hj)) hrest
    rw [YamlTree.itemsParts, hjson, Exec.ok_bind, hjsons]
    rfl

theorem keyPart_short {key : CString} (tag : CString) (style : YamlScalarStyle) (h : YamlKey key) :
    YamlTree.keyPart (.scalar tag key.bytes style) = .ok (some key) := by
  have hle : key.bytes.length ≤ MAX_JSON_KEY := h
  have hlength : (BitVec.ofNat 32 key.bytes.length).toInt = key.bytes.length := by
    unfold MAX_JSON_KEY at hle
    rw [BitVec.toInt_ofNat']
    exact Int.bmod_eq_of_le (by omega) (by omega)
  unfold YamlTree.keyPart
  dsimp only
  rw [hlength, if_neg (by exact_mod_cast not_lt.mpr hle), if_neg (by omega), Int.toNat_natCast,
    List.take_length, ofBytes_bytes]
  rfl

theorem pairsParts_loaded {properties : List (CString × Json)} (hkeys : ∀ p ∈ properties, YamlKey p.1)
    (ih : ∀ p ∈ properties, Returns p.2) : ∀ {ps : List (YamlTree × YamlTree)},
    ImplicitNode.LoadedPairs (emittedProperties properties) ps →
    YamlTree.pairsParts ps = .ok (Json.mapProperties widening properties) := by
  induction properties with
  | nil =>
    intro ps hloaded
    rw [emittedProperties, ImplicitNode.LoadedPairs] at hloaded
    rw [hloaded]
    rfl
  | cons p properties ihs =>
    obtain ⟨key, value⟩ := p
    intro ps hloaded
    rw [emittedProperties] at hloaded
    obtain ⟨tag, style, t, ps', rfl, hvalue, hrest⟩ := hloaded
    have hkey := keyPart_short tag style (hkeys (key, value) List.mem_cons_self)
    have hjson := ih (key, value) List.mem_cons_self hvalue
    have hjsons := ihs (fun p hp => hkeys p (List.mem_cons_of_mem _ hp))
      (fun p hp => ih p (List.mem_cons_of_mem _ hp)) hrest
    rw [YamlTree.pairsParts, hkey, Exec.ok_bind, hjson]
    dsimp only
    rw [Exec.ok_bind, hjsons]
    rfl

theorem returns {j : Json} (h : j.All YamlScalar YamlKey) : Returns j := by
  induction j using Json.parts_induction with
  | scalar s =>
    cases h with
    | scalar hs =>
      intro t hloaded
      exact part_loadedScalar hs hloaded
  | object properties ih =>
    cases h with
    | object hkeys hvalues =>
      intro t hloaded
      rw [emitted] at hloaded
      obtain ⟨ps, rfl, hpairs⟩ := hloaded
      rw [YamlTree.part, pairsParts_loaded hkeys (fun p hp => ih p hp (hvalues p hp)) hpairs]
      rfl
  | array elements ih =>
    cases h with
    | array helements =>
      intro t hloaded
      rw [emitted] at hloaded
      obtain ⟨ts, rfl, hitems⟩ := hloaded
      rw [YamlTree.part, itemsParts_loaded (fun j hj => ih j hj (helements j hj)) hitems]
      rfl

theorem height_loaded (j : Json) : ∀ {t : YamlTree}, (emitted j).LoadedAs t → t.height = j.height := by
  induction j using Json.parts_induction with
  | scalar s =>
    intro t hloaded
    rw [emitted] at hloaded
    cases s <;> rw [hloaded] <;> rfl
  | object properties ih =>
    intro t hloaded
    rw [emitted] at hloaded
    obtain ⟨ps, rfl, hpairs⟩ := hloaded
    rw [YamlTree.height, Json.height]
    induction properties generalizing ps with
    | nil =>
      rw [emittedProperties, ImplicitNode.LoadedPairs] at hpairs
      rw [hpairs]
      rfl
    | cons p properties ihs =>
      obtain ⟨key, value⟩ := p
      rw [emittedProperties] at hpairs
      obtain ⟨tag, style, t, ps', rfl, hvalue, hrest⟩ := hpairs
      have hheight : t.height = value.height := ih (key, value) List.mem_cons_self hvalue
      have hheights := ihs (fun p hp => ih p (List.mem_cons_of_mem _ hp)) ps' hrest
      rw [YamlTree.heightPairs, Json.heightProperties, hheight]
      omega
  | array elements ih =>
    intro t hloaded
    rw [emitted] at hloaded
    obtain ⟨ts, rfl, hitems⟩ := hloaded
    rw [YamlTree.height, Json.height]
    induction elements generalizing ts with
    | nil =>
      rw [emittedElements, ImplicitNode.LoadedItems] at hitems
      rw [hitems]
      rfl
    | cons value elements ihs =>
      rw [emittedElements] at hitems
      obtain ⟨t, ts', rfl, hvalue, hrest⟩ := hitems
      have hheight := ih value List.mem_cons_self hvalue
      have hheights := ihs (fun j hj => ih j (List.mem_cons_of_mem _ hj)) ts' hrest
      rw [YamlTree.heightItems, Json.heightElements, hheight]
      omega

theorem YamlScalar.fits {s : JsonScalar} (h : YamlScalar s) : ScalarFits s := by
  cases s with
  | string s => exact h.1
  | number n => exact trivial
  | int64 n => exact trivial
  | double d => exact h
  | boolean b => exact trivial
  | null => exact trivial

theorem not_template_loaded {j : Json} (h : j.All YamlScalar YamlKey) {t : YamlTree}
    (hloaded : (emitted j).LoadedAs t) : t.template = false := by
  have hnumber : ∀ n : BitVec 64, 0 ≤ n.toInt →
      YamlTree.isTemplate YAML_STR_TAG (formatD n.toInt) .YAML_PLAIN_SCALAR_STYLE = false := by
    intro n hn
    have hinteger := isSyntacticallyInteger_formatD hn
    rw [← take_formatD n] at hinteger
    exact JsonBuilder.not_isTemplate YAML_INT_TAG (by decide)
      isSyntacticallyInteger_dollar (.inr ⟨⟨rfl, rfl⟩, hinteger⟩)
  cases h with
  | @scalar s hs =>
    rw [emitted] at hloaded
    cases s with
    | number n =>
      have hsame : (n.signExtend 64).toInt = n.toInt := BitVec.toInt_signExtend_of_le (by omega)
      have htemplate := hnumber (n.signExtend 64) (by rwa [hsame])
      rw [hsame] at htemplate
      rw [hloaded]
      exact htemplate
    | int64 n =>
      rw [hloaded]
      exact hnumber n hs
    | double d => exact absurd hs not_false
    | string s =>
      have hlength := hs.1
      have htake : s.bytes.take MAX_JSON_STRING = s.bytes :=
        List.take_of_length_le (by unfold MAX_ACCESS_PATH at hlength; unfold MAX_JSON_STRING; omega)
      rw [hloaded]
      show YamlTree.isTemplate _ _ _ = false
      unfold YamlTree.isTemplate
      rw [htake, hs.2, Bool.and_false, Bool.false_and]
    | boolean b =>
      rw [hloaded]
      cases b <;> rfl
    | null =>
      rw [hloaded]
      rfl
  | object _ _ =>
    rw [emitted] at hloaded
    obtain ⟨ps, rfl, -⟩ := hloaded
    rfl
  | array _ =>
    rw [emitted] at hloaded
    obtain ⟨ts, rfl, -⟩ := hloaded
    rfl

/-- What is emitted and loaded as it was converts back to the tree, with 64-bit integers. -/
theorem yaml2JSON_emitYaml {σ : Type} {lib : LibYaml σ} {start : σ} {j : Json}
    (h : j.All YamlScalar YamlKey) (hlib : lib.Reloads start (emitted j)) (heap : List JsonNode)
    (fuel : ℕ) (hfuel : j.height < fuel) : ∃ finish doc root heap',
      emitYaml lib.yaml_emitter_emit start j = .ok (YAML_SUCCESS, finish) ∧
      lib.yaml_parser_load finish = some doc ∧
      yaml2JSON fuel heap doc = .ok (some root, heap') ∧
      Json.Rep heap' {i | heap.length ≤ i} root (j.map widening) := by
  obtain ⟨finish, doc, t, haccepts, hload, hloaded, hrep⟩ := hlib
  have hwrites : Writes lib.yaml_emitter_emit j := writes (h.imp (fun _ => YamlScalar.fits) fun _ => id)
  have hheight := height_loaded j hloaded
  have hread := yaml2JSON_eq (show t.height < fuel by omega) hrep heap
  rw [returns h hloaded] at hread
  obtain ⟨heap', hrun, -, htree⟩ := hread
  have hroot : rootResult heap t (some (j.map widening)) = some heap.length := by
    unfold rootResult
    rw [not_template_loaded h hloaded]
    rfl
  rw [hroot] at hrun
  exact ⟨finish, doc, heap.length, heap', emitYaml_ok hwrites haccepts, hload, hrun, htree _ rfl⟩

def recorder (doc : YamlDocument) : LibYaml (List YamlEvent) where
  yaml_emitter_emit event log := (true, log ++ [event])
  yaml_parser_load _ := some doc

theorem accepts_recorder (doc : YamlDocument) (events : List YamlEvent) : ∀ log,
    Accepts (recorder doc).yaml_emitter_emit log events (log ++ events) := by
  induction events with
  | nil =>
    intro log
    rw [List.append_nil]
    rfl
  | cons event events ih =>
    intro log
    refine ⟨log ++ [event], rfl, ?_⟩
    have hrest := ih (log ++ [event])
    rwa [List.append_assoc, List.singleton_append] at hrest

/-- An object with a number under a key. -/
theorem yaml2JSON_emitYaml_object :
    let doc : YamlDocument := ⟨[.mapping [(2, 3)],
      .scalar YAML_STR_TAG (ascii "a") .YAML_PLAIN_SCALAR_STYLE,
      .scalar YAML_STR_TAG (ascii "7") .YAML_PLAIN_SCALAR_STYLE]⟩
    ∃ finish doc' root heap',
      emitYaml (recorder doc).yaml_emitter_emit []
        (.object [(ofBytes (ascii "a"), .scalar (.number 7))]) = .ok (YAML_SUCCESS, finish) ∧
      (recorder doc).yaml_parser_load finish = some doc' ∧
      yaml2JSON 2 [] doc' = .ok (some root, heap') ∧
      Json.Rep heap' {i | 0 ≤ i} root (.object [(ofBytes (ascii "a"), .scalar (.int64 7))]) := by
  intro doc
  have hall : (Json.object [(ofBytes (ascii "a"), .scalar (.number 7))]).All YamlScalar YamlKey := by
    have hkey : YamlKey (ofBytes (ascii "a")) := by
      unfold YamlKey
      decide
    have hvalue : (Json.scalar (.number 7)).All YamlScalar YamlKey := by
      apply Json.All.scalar
      show 0 ≤ (7 : BitVec 32).toInt
      decide
    exact .object (by simpa using hkey) (by simpa using hvalue)
  have hreloads : (recorder doc).Reloads []
      (emitted (.object [(ofBytes (ascii "a"), .scalar (.number 7))])) := by
    refine ⟨_, doc, .mapping [(.scalar YAML_STR_TAG (ascii "a") .YAML_PLAIN_SCALAR_STYLE,
      .scalar YAML_STR_TAG (ascii "7") .YAML_PLAIN_SCALAR_STYLE)], accepts_recorder doc _ _, rfl, ?_, ?_⟩
    · have htext : formatD (7 : BitVec 32).toInt = ascii "7" := by decide +kernel
      refine ⟨_, rfl, YAML_STR_TAG, .YAML_PLAIN_SCALAR_STYLE, _, [], rfl, ?_, rfl⟩
      show YamlTree.scalar YAML_STR_TAG (ascii "7") .YAML_PLAIN_SCALAR_STYLE =
        .scalar YAML_STR_TAG (formatD (7 : BitVec 32).toInt) .YAML_PLAIN_SCALAR_STYLE
      rw [htext]
    · exact ⟨[(2, 3)], rfl, 2, 3, [], rfl, rfl, rfl, rfl⟩
  exact yaml2JSON_emitYaml hall hreloads [] 2 (by decide)

/-- A negative integer comes back as a string, and a property with a long key not at all. -/
theorem not_yaml2JSON_emitYaml :
    let negative : YamlDocument := ⟨[.scalar YAML_STR_TAG (ascii "-5") .YAML_PLAIN_SCALAR_STYLE]⟩
    let key : List Byte := List.replicate 257 0x61
    let long : YamlDocument := ⟨[.mapping [(2, 3)], .scalar YAML_STR_TAG key .YAML_PLAIN_SCALAR_STYLE,
      .scalar YAML_STR_TAG (ascii "null") .YAML_PLAIN_SCALAR_STYLE]⟩
    (recorder negative).Reloads [] (emitted (.scalar (.int64 (-5)))) ∧
      yaml2JSON 1 [] negative = .ok (some 0, [.scalar (.string (ofBytes (ascii "-5")))]) ∧
      (recorder long).Reloads [] (emitted (.object [(ofBytes key, .scalar .null)])) ∧
      yaml2JSON 2 [] long = .ok (some 0, [.object []]) := by
  intro negative key long
  have htext : formatD (-5 : BitVec 64).toInt = ascii "-5" := by decide +kernel
  have hkey : (ofBytes key).bytes = key := by decide +kernel
  refine ⟨⟨_, negative, _, accepts_recorder negative _ _, rfl, rfl, ?_⟩, by decide +kernel,
    ⟨_, long, .mapping [(.scalar YAML_STR_TAG key .YAML_PLAIN_SCALAR_STYLE,
      .scalar YAML_STR_TAG (ascii "null") .YAML_PLAIN_SCALAR_STYLE)], accepts_recorder long _ _, rfl,
      ?_, ?_⟩, by decide +kernel⟩
  · show yaml_document_get_node negative 1 =
      some (.scalar YAML_STR_TAG (formatD (-5 : BitVec 64).toInt) .YAML_PLAIN_SCALAR_STYLE)
    rw [htext]
    rfl
  · refine ⟨_, rfl, YAML_STR_TAG, .YAML_PLAIN_SCALAR_STYLE, _, [], ?_, rfl, rfl⟩
    rw [hkey]
  · exact ⟨[(2, 3)], rfl, 2, 3, [], rfl, rfl, rfl, rfl⟩

end ZoweCommon
