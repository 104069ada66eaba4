import ZoweCommon.Basic.CLibrary
import ZoweCommon.Config.ConfigManager
import ZoweCommon.Json.MergeCorrect
import ZoweCommon.Json.Pointer

/-! What of a configuration a JSON pointer leads to. -/
namespace ZoweCommon

open Json JsonPointer

def JSON_POINTER_TOO_DEEP : ℕ := 101
def JSON_POINTER_ARRAY_INDEX_NOT_INTEGER : ℕ := 102
def JSON_POINTER_ARRAY_INDEX_OUT_OF_BOUNDS : ℕ := 103
def ZCFG_UNKNOWN_CONFIG_NAME : ℕ := 3

/-- The configurations by their names, and the heap that their data is in. -/
structure ConfigManager where
  configs : List (CString × CFGConfig)
  slh : List JsonNode

def getConfig (mgr : ConfigManager) (configName : CString) : Option CFGConfig :=
  (mgr.configs.find? fun c => c.1 = configName).map Prod.snd

/-- There is no test for what is before the array. -/
def jsonArrayGetItem (es : List ℕ) (n : ℤ) : Exec (Option ℕ) :=
  if n < es.length then
    if 0 ≤ n then return es[n.toNat]? else throw .undefinedBehaviour
  else return none

/-- The value, or a null pointer, and the reason of the error. -/
def jsonPointerDereference (heap : List JsonNode) :
    List JsonPointerElement → Option ℕ → Exec (Option ℕ × ℕ)
  | [], value => return (value, 0)
  | _ :: _, none => throw .undefinedBehaviour
  | element :: elements, some value => do
    match ← (⟨heap, none⟩ : JsonBuilder).node value with
    | .array es =>
      if element.type = .INTEGER then do
        let index ← CLibrary.atoi element.string
        if es.length ≤ index.toInt then return (none, JSON_POINTER_ARRAY_INDEX_OUT_OF_BOUNDS)
        let value ← jsonArrayGetItem es index.toInt
        jsonPointerDereference heap elements value
      else return (none, JSON_POINTER_ARRAY_INDEX_NOT_INTEGER)
    | .object ps =>
      match JsonBuilder.jsonObjectGetPropertyValue ps element.string with
      | none => return (none, JSON_POINTER_TOO_DEEP)
      | some value => jsonPointerDereference heap elements (some value)
    | .scalar _ => return (none, 0)

/-- The status, and the result from what it is before the call. -/
def cfgGetAnyJ (mgr : ConfigManager) (configName : CString) (result : Option ℕ)
    (jp : List JsonPointerElement) : Exec (ℕ × Option ℕ) :=
  match getConfig mgr configName with
  | none => return (ZCFG_UNKNOWN_CONFIG_NAME, result)
  | some config => do
    let (value, errorReason) ← jsonPointerDereference mgr.slh jp config.configData
    match value with
    | some value => return (ZCFG_SUCCESS, some value)
    | none => return (errorReason, none)

/-- The number that a text of digits stands for. -/
def indexOf (key : CString) : ℕ := Decimal.value (key.bytes.map fun b => b.toNat - 0x30)

/-- The value that a list of keys leads to: an array has its elements under their decimals. -/
def denoted : Json → List CString → Option Json
  | t, [] => some t
  | .scalar _, _ :: _ => none
  | .object props, key :: keys => (lookup props key).bind fun value => denoted value keys
  | .array elements, key :: keys =>
    if key.bytes ≠ [] ∧ key.bytes.all isDigit then
      elements[indexOf key]?.bind fun value => denoted value keys
    else none

/-- What one step of the pointer comes to. -/
inductive Look
  | goesOn (value : Json)
  | refused
  | unreported
  | undefined

/-- A scalar is not gone into, but there is no reason for it; for the index there is no test whether
it is an `int`, and without digits it is zero. -/
def look : Json → CString → Look
  | .scalar _, _ => .unreported
  | .object props, key =>
    match lookup props key with
    | some value => .goesOn value
    | none => .refused
  | .array elements, key =>
    if key.bytes.all isDigit then
      if indexOf key < 2 ^ 31 then
        match elements[indexOf key]? with
        | some value => .goesOn value
        | none => .refused
      else .undefined
    else .refused

/-- Some step is refused, with a reason, and every step before it goes on. -/
def Refused : Json → List CString → Prop
  | _, [] => False
  | t, key :: keys =>
    match look t key with
    | .goesOn value => Refused value keys
    | .refused => True
    | .unreported => False
    | .undefined => False

def IsStep : Json → CString → Prop
  | .array _, key => key.bytes ≠ []
  | _, _ => True

instance : ∀ t key, Decidable (IsStep t key)
  | .array _, _ => inferInstanceAs (Decidable (_ ≠ _))
  | .object _, _ => inferInstanceAs (Decidable True)
  | .scalar _, _ => inferInstanceAs (Decidable True)

/-- No step is into a scalar or has an index that is no `int`; and from an empty key on, where an
array has an element for it, some step is refused. -/
def Evaluable : Json → List CString → Prop
  | _, [] => True
  | t, key :: keys =>
    match look t key with
    | .goesOn value => if IsStep t key then Evaluable value keys else Refused value keys
    | .refused => True
    | .unreported => False
    | .undefined => False

/-- The value that the pointer denotes is found, or there is a status and a null pointer. -/
def Exact (heap : List JsonNode) (S : Set ℕ) (t : Option Json) (run : Exec (ℕ × Option ℕ)) : Prop :=
  match t with
  | some value => ∃ q, run = .ok (ZCFG_SUCCESS, some q) ∧ Rep heap S q value
  | none => ∃ status, status ≠ ZCFG_SUCCESS ∧ run = .ok (status, none)

def FromText (element : JsonPointerElement) : Prop :=
  element.type = .INTEGER ↔ element.string.bytes.all isDigit

section Steps

variable {heap : List JsonNode} {S : Set ℕ} {p : ℕ} {element : JsonPointerElement}
  {elements : List JsonPointerElement}

theorem isdigit_of_isDigit {b : Byte} (h : isDigit b) : CLibrary.isdigit b.toInt := by
  unfold isDigit at h
  rw [Bool.and_eq_true, decide_eq_true_eq, decide_eq_true_eq] at h
  have hint : b.toInt = b.toNat := CLibrary.toInt_of_lt (by omega)
  unfold CLibrary.isdigit
  rw [hint, Bool.and_eq_true, decide_eq_true_eq, decide_eq_true_eq]
  omega

theorem not_isspace_of_isDigit {b : Byte} (h : isDigit b) : CLibrary.isspace b.toInt = false := by
  unfold isDigit at h
  rw [Bool.and_eq_true, decide_eq_true_eq, decide_eq_true_eq] at h
  have hint : b.toInt = b.toNat := CLibrary.toInt_of_lt (by omega)
  unfold CLibrary.isspace
  rw [hint, Bool.or_eq_false_iff, decide_eq_false_iff_not, Bool.and_eq_false_iff,
    decide_eq_false_iff_not, decide_eq_false_iff_not]
  omega

/-- A text of digits is read whole. -/
theorem atoi_digits {key : CString} (h : key.bytes.all isDigit) : CLibrary.atoi key =
    if indexOf key < 2 ^ 31 then .ok (BitVec.ofNat 32 (indexOf key))
    else .error .undefinedBehaviour := by
  have hall := List.all_eq_true.mp h
  have hspace : key.bytes.dropWhile (fun b => CLibrary.isspace b.toInt) = key.bytes := by
    cases hbytes : key.bytes with
    | nil => rfl
    | cons c text =>
      have hc := not_isspace_of_isDigit (hall c (by rw [hbytes]; exact List.mem_cons_self))
      exact List.dropWhile_cons_of_neg (by rw [hc]; exact Bool.false_ne_true)
  have hsign : CLibrary.splitSign key.bytes = (false, key.bytes) := by
    have hhead (c : Byte) (hc : ¬isDigit c) : key.bytes.head? ≠ some c := by
      intro heq
      exact hc (hall c (List.mem_of_mem_head? heq))
    unfold CLibrary.splitSign
    rw [if_neg (hhead 0x2D (by decide)), if_neg (hhead 0x2B (by decide))]
  have htake : key.bytes.takeWhile (fun b => CLibrary.isdigit b.toInt) = key.bytes :=
    List.takeWhile_eq_self_iff.mpr fun b hb => isdigit_of_isDigit (hall b hb)
  have hlow : -2 ^ 31 ≤ ((indexOf key : ℕ) : ℤ) := by omega
  unfold CLibrary.atoi
  dsimp only
  rw [hspace, hsign]
  dsimp only
  rw [htake, if_neg Bool.false_ne_true]
  have hiff : (-2 ^ 31 ≤ ((indexOf key : ℕ) : ℤ) ∧ ((indexOf key : ℕ) : ℤ) < 2 ^ 31) ↔
      indexOf key < 2 ^ 31 := by omega
  have hvalue : Decimal.value (key.bytes.map fun b => b.toNat - 0x30) = indexOf key := rfl
  rw [hvalue]
  simp only [hiff]
  rfl

/-- What a turn of the loop comes to, by what the step looks at. -/
theorem dereference_look {t : Json} (hrep : Rep heap S p t) (hfrom : FromText element) :
    match look t element.string with
    | .goesOn value => ∃ q, Rep heap S q value ∧
        jsonPointerDereference heap (element :: elements) (some p) =
          jsonPointerDereference heap elements (some q)
    | .refused => ∃ reason, reason ≠ ZCFG_SUCCESS ∧
        jsonPointerDereference heap (element :: elements) (some p) = .ok (none, reason)
    | .unreported => jsonPointerDereference heap (element :: elements) (some p) = .ok (none, 0)
    | .undefined => jsonPointerDereference heap (element :: elements) (some p) =
        .error .undefinedBehaviour := by
  have hturn : ∀ node, heap[p]? = some node →
      (⟨heap, none⟩ : JsonBuilder).node p = .ok node := by
    intro node hnode
    unfold JsonBuilder.node
    rw [hnode]
    rfl
  cases t with
  | scalar s =>
    obtain ⟨-, hnode⟩ := hrep
    dsimp only [look]
    rw [jsonPointerDereference, hturn _ hnode]
    rfl
  | object props =>
    obtain ⟨-, ps, hnode, hps⟩ := hrep
    obtain ⟨hnone, hlookup⟩ | ⟨q, value, hsome, hlookup, -, hq⟩ :=
      JsonBuilder.getPropertyValue_rep hps element.string
    · dsimp only [look]
      rw [hlookup]
      refine ⟨JSON_POINTER_TOO_DEEP, by decide, ?_⟩
      rw [jsonPointerDereference, hturn _ hnode, Exec.ok_bind]
      dsimp only
      rw [hnone]
      rfl
    · dsimp only [look]
      rw [hlookup]
      refine ⟨q, hq, ?_⟩
      rw [jsonPointerDereference, hturn _ hnode, Exec.ok_bind]
      dsimp only
      rw [hsome]
  | array items =>
    obtain ⟨-, es, hnode, hes⟩ := hrep
    rw [repElements_iff] at hes
    have hstep : jsonPointerDereference heap (element :: elements) (some p) =
        if element.type = .INTEGER then do
          let index ← CLibrary.atoi element.string
          if es.length ≤ index.toInt then return (none, JSON_POINTER_ARRAY_INDEX_OUT_OF_BOUNDS)
          let value ← jsonArrayGetItem es index.toInt
          jsonPointerDereference heap elements value
        else return (none, JSON_POINTER_ARRAY_INDEX_NOT_INTEGER) := by
      rw [jsonPointerDereference, hturn _ hnode]
      rfl
    dsimp only [look]
    rw [hstep]
    by_cases hdigits : element.string.bytes.all isDigit
    · rw [if_pos hdigits, if_pos (hfrom.mpr hdigits), atoi_digits hdigits]
      by_cases hsmall : indexOf element.string < 2 ^ 31
      · have hindex : (BitVec.ofNat 32 (indexOf element.string)).toInt = indexOf element.string := by
          have hnat : (BitVec.ofNat 32 (indexOf element.string)).toNat = indexOf element.string := by
            rw [BitVec.toNat_ofNat]
            exact Nat.mod_eq_of_lt (by omega)
          rw [BitVec.toInt_eq_toNat_of_lt (by omega), hnat]
        rw [if_pos hsmall, if_pos hsmall, Exec.ok_bind, hindex]
        have hlength := hes.length_eq
        cases hitem : items[indexOf element.string]? with
        | none =>
          have hle := List.getElem?_eq_none_iff.mp hitem
          refine ⟨JSON_POINTER_ARRAY_INDEX_OUT_OF_BOUNDS, by decide, ?_⟩
          rw [if_pos (by omega)]
          rfl
        | some value =>
          obtain ⟨hlt, hvalue⟩ := List.getElem?_eq_some_iff.mp hitem
          have hlt' : indexOf element.string < es.length := by omega
          have hq := hes.get hlt' hlt
          refine ⟨es[indexOf element.string], ?_, ?_⟩
          · rw [← hvalue]
            exact hq
          · have hget : jsonArrayGetItem es (indexOf element.string) =
                .ok (some es[indexOf element.string]) := by
              unfold jsonArrayGetItem
              rw [if_pos (by omega), if_pos (by omega), Int.toNat_natCast,
                List.getElem?_eq_getElem hlt']
              rfl
            rw [if_neg (by omega), hget, Exec.ok_bind]
      · rw [if_neg hsmall, if_neg hsmall]
        rfl
    · have htype : ¬element.type = .INTEGER := fun h => hdigits (hfrom.mp h)
      rw [if_neg hdigits, if_neg htype]
      exact ⟨JSON_POINTER_ARRAY_INDEX_NOT_INTEGER, by decide, rfl⟩

end Steps

section Walks

variable {heap : List JsonNode} {S : Set ℕ} {p : ℕ} {elements : List JsonPointerElement}

/-- What `cfgGetAnyJ` makes of what the walk comes to. -/
def answer (walk : Option ℕ × ℕ) : Exec (ℕ × Option ℕ) :=
  match walk.1 with
  | some value => return (ZCFG_SUCCESS, some value)
  | none => return (walk.2, none)

theorem keys_cons (element : JsonPointerElement) :
    (element :: elements).map JsonPointerElement.string =
      element.string :: elements.map JsonPointerElement.string := rfl

/-- A walk ends with a reason exactly if a step is refused. -/
theorem refused_iff {t : Json} (hrep : Rep heap S p t) (hfrom : ∀ e ∈ elements, FromText e) :
    (∃ reason, reason ≠ ZCFG_SUCCESS ∧
      jsonPointerDereference heap elements (some p) = .ok (none, reason)) ↔
        Refused t (elements.map JsonPointerElement.string) := by
  induction elements generalizing p t with
  | nil =>
    rw [jsonPointerDereference]
    apply iff_of_false
    · intro ⟨reason, _, hrun⟩
      cases hrun
    · exact not_false
  | cons element elements ih =>
    obtain ⟨helement, helements⟩ := List.forall_mem_cons.mp hfrom
    have hlook := @dereference_look heap S p element elements t hrep helement
    rw [keys_cons, Refused]
    cases hcase : look t element.string with
    | goesOn value =>
      rw [hcase] at hlook
      obtain ⟨q, hq, hrun⟩ := hlook
      rw [hrun]
      exact ih hq helements
    | refused =>
      rw [hcase] at hlook
      exact iff_of_true hlook trivial
    | unreported =>
      rw [hcase] at hlook
      dsimp only at hlook
      rw [hlook]
      apply iff_of_false
      · intro ⟨reason, hreason, hrun⟩
        cases hrun
        exact hreason rfl
      · exact not_false
    | undefined =>
      rw [hcase] at hlook
      dsimp only at hlook
      rw [hlook]
      apply iff_of_false
      · intro ⟨reason, _, hrun⟩
        cases hrun
      · exact not_false

/-- The rest of the pointer, after a step of the document. -/
theorem denoted_goesOn {t value : Json} {key : CString} (keys : List CString)
    (hlook : look t key = .goesOn value) :
    denoted t (key :: keys) = if IsStep t key then denoted value keys else none := by
  cases t with
  | scalar s => cases hlook
  | object props =>
    dsimp only [look] at hlook
    have hstep : IsStep (.object props) key := trivial
    rw [denoted, if_pos hstep]
    cases hlookup : lookup props key with
    | none =>
      rw [hlookup] at hlook
      cases hlook
    | some v =>
      rw [hlookup] at hlook
      cases hlook
      rfl
  | array items =>
    dsimp only [look] at hlook
    rw [denoted]
    split_ifs at hlook with hdigits hsmall
    cases hitem : items[indexOf key]? with
    | none =>
      rw [hitem] at hlook
      cases hlook
    | some v =>
      rw [hitem] at hlook
      cases hlook
      have hiff : (key.bytes ≠ [] ∧ key.bytes.all isDigit) ↔ IsStep (.array items) key :=
        and_iff_left hdigits
      simp only [hiff]
      rfl

theorem denoted_refused {t : Json} {key : CString} (keys : List CString)
    (hlook : look t key = .refused) : denoted t (key :: keys) = none := by
  cases t with
  | scalar s => cases hlook
  | object props =>
    dsimp only [look] at hlook
    rw [denoted]
    cases hlookup : lookup props key with
    | none => rfl
    | some v =>
      rw [hlookup] at hlook
      cases hlook
  | array items =>
    dsimp only [look] at hlook
    rw [denoted]
    split_ifs at hlook with hdigits hsmall
    · cases hitem : items[indexOf key]? with
      | none =>
        split_ifs
        · rfl
        · rfl
      | some v =>
        rw [hitem] at hlook
        cases hlook
    · rw [if_neg fun h => hdigits h.2]

theorem denoted_unreported {t : Json} {key : CString} (keys : List CString)
    (hlook : look t key = .unreported) : denoted t (key :: keys) = none := by
  cases t with
  | scalar s => rfl
  | object props =>
    dsimp only [look] at hlook
    cases hlookup : lookup props key with
    | none =>
      rw [hlookup] at hlook
      cases hlook
    | some v =>
      rw [hlookup] at hlook
      cases hlook
  | array items =>
    dsimp only [look] at hlook
    split_ifs at hlook
    cases hitem : items[indexOf key]? with
    | none =>
      rw [hitem] at hlook
      cases hlook
    | some v =>
      rw [hitem] at hlook
      cases hlook

theorem exact_none {run : Exec (Option ℕ × ℕ)} : Exact heap S none (run >>= answer) ↔
    ∃ reason, reason ≠ ZCFG_SUCCESS ∧ run = .ok (none, reason) := by
  constructor
  · intro ⟨status, hstatus, hrun⟩
    obtain ⟨⟨value, reason⟩, hwalk, hanswer⟩ := Exec.bind_eq_ok.mp hrun
    cases value with
    | none =>
      cases hanswer
      exact ⟨_, hstatus, hwalk⟩
    | some value => cases hanswer
  · intro ⟨reason, hreason, hrun⟩
    rw [hrun]
    exact ⟨reason, hreason, rfl⟩

theorem dereference_exact_iff {t : Json} (hrep : Rep heap S p t) (hfrom : ∀ e ∈ elements, FromText e) :
    Exact heap S (denoted t (elements.map JsonPointerElement.string))
      (jsonPointerDereference heap elements (some p) >>= answer) ↔
        Evaluable t (elements.map JsonPointerElement.string) := by
  induction elements generalizing p t with
  | nil => exact iff_of_true ⟨p, rfl, hrep⟩ trivial
  | cons element elements ih =>
    obtain ⟨helement, helements⟩ := List.forall_mem_cons.mp hfrom
    have hlook := @dereference_look heap S p element elements t hrep helement
    rw [keys_cons, Evaluable]
    cases hcase : look t element.string with
    | goesOn value =>
      rw [hcase] at hlook
      obtain ⟨q, hq, hrun⟩ := hlook
      rw [hrun, denoted_goesOn _ hcase]
      dsimp only
      split_ifs
      · exact ih hq helements
      · rw [exact_none, refused_iff hq helements]
    | refused =>
      rw [hcase] at hlook
      rw [denoted_refused _ hcase, exact_none]
      exact iff_of_true hlook trivial
    | unreported =>
      rw [hcase] at hlook
      dsimp only at hlook
      rw [denoted_unreported _ hcase, exact_none, hlook]
      apply iff_of_false
      · intro ⟨reason, hreason, hrun⟩
        cases hrun
        exact hreason rfl
      · exact not_false
    | undefined =>
      rw [hcase] at hlook
      dsimp only at hlook
      rw [hlook]
      apply iff_of_false
      · intro hexact
        unfold Exact at hexact
        split at hexact
        · obtain ⟨q, hrun, -⟩ := hexact
          cases hrun
        · obtain ⟨status, -, hrun⟩ := hexact
          cases hrun
      · exact not_false

end Walks

section Configurations

variable {mgr : ConfigManager} {configName : CString} {config : CFGConfig} {s : CString}
  {jp : List JsonPointerElement} {S : Set ℕ} {p : ℕ} {t : Json}

/-- The type of an element is that of its text. -/
theorem fromText_of_parsed (h : parseJsonPointer s = some jp) : ∀ e ∈ jp, FromText e := by
  rw [parseJsonPointer_eq] at h
  split_ifs at h
  · cases h
    exact List.forall_mem_nil _
  · obtain ⟨tokens, htokens, rfl⟩ := Option.map_eq_some_iff.mp h
    intro e he
    obtain ⟨token, htoken, rfl⟩ := List.mem_map.mp he
    have hnoNul : NoNul token := noNul_of_tokensOf htokens htoken
    unfold FromText elementOf makePointerElement
    dsimp only
    rw [CString.ofBytes_of_noNul hnoNul]
    cases token.all isDigit with
    | false => exact iff_of_false nofun nofun
    | true => exact iff_of_true rfl rfl

end Configurations

/-- A JSON pointer is evaluated exactly on a configuration, if it can be evaluated on it. -/
theorem cfgGetAnyJ_exact_iff {mgr : ConfigManager} {configName : CString} {config : CFGConfig}
    {s : CString} {jp : List JsonPointerElement} {S : Set ℕ} {p : ℕ} {t : Json}
    (hconfig : getConfig mgr configName = some config) (hdata : config.configData = some p)
    (hrep : Rep mgr.slh S p t) (hparsed : parseJsonPointer s = some jp) (result : Option ℕ) :
    Exact mgr.slh S (denoted t (jp.map JsonPointerElement.string))
      (cfgGetAnyJ mgr configName result jp) ↔
        Evaluable t (jp.map JsonPointerElement.string) := by
  have hrun : cfgGetAnyJ mgr configName result jp =
      (jsonPointerDereference mgr.slh jp (some p) >>= answer) := by
    unfold cfgGetAnyJ
    rw [hconfig, ← hdata]
    rfl
  rw [hrun]
  exact dereference_exact_iff hrep (fromText_of_parsed hparsed)

/-- A configuration with one property in its data. -/
def portManager : ConfigManager where
  configs := [(.ofBytes (CString.ascii "zowe"), ⟨[], none, some 0⟩)]
  slh := [.object [(.ofBytes (CString.ascii "port"), 1)], .scalar (.int64 7556)]

def portDocument : Json :=
  .object [(.ofBytes (CString.ascii "port"), .scalar (.int64 7556))]

theorem portManager_rep : Rep portManager.slh Set.univ 0 portDocument :=
  ⟨trivial, _, rfl, 1, [], rfl, ⟨trivial, rfl⟩, rfl⟩

theorem cfgGetAnyJ_exact_iff_port :
    Exact portManager.slh Set.univ (denoted portDocument [.ofBytes (CString.ascii "port")])
      (cfgGetAnyJ portManager (.ofBytes (CString.ascii "zowe")) none
        [⟨.ofBytes (CString.ascii "port"), .NORMAL_KEY⟩]) ↔
      Evaluable portDocument [.ofBytes (CString.ascii "port")] :=
  @cfgGetAnyJ_exact_iff portManager (.ofBytes (CString.ascii "zowe")) ⟨[], none, some 0⟩
    (.ofBytes (CString.ascii "/port")) [⟨.ofBytes (CString.ascii "port"), .NORMAL_KEY⟩] Set.univ 0
    portDocument (by rfl) rfl portManager_rep (by rfl) none

/-- A step into a scalar comes to a null pointer, with the status of success. -/
theorem not_cfgGetAnyJ_exact :
    ¬∀ (mgr : ConfigManager) (configName : CString) (config : CFGConfig) (s : CString)
      (jp : List JsonPointerElement) (S : Set ℕ) (p : ℕ) (t : Json),
      getConfig mgr configName = some config → config.configData = some p → Rep mgr.slh S p t →
      parseJsonPointer s = some jp → ∀ result,
        Exact mgr.slh S (denoted t (jp.map JsonPointerElement.string))
          (cfgGetAnyJ mgr configName result jp) := by
  intro h
  have hexact := h portManager (.ofBytes (CString.ascii "zowe")) ⟨[], none, some 0⟩
    (.ofBytes (CString.ascii "/port/x"))
    [⟨.ofBytes (CString.ascii "port"), .NORMAL_KEY⟩, ⟨.ofBytes (CString.ascii "x"), .NORMAL_KEY⟩]
    Set.univ 0 portDocument (by rfl) rfl portManager_rep (by rfl) none
  have hdenoted : denoted portDocument
      [.ofBytes (CString.ascii "port"), .ofBytes (CString.ascii "x")] = none := by rfl
  have hkeys : [JsonPointerElement.mk (.ofBytes (CString.ascii "port")) .NORMAL_KEY,
      ⟨.ofBytes (CString.ascii "x"), .NORMAL_KEY⟩].map JsonPointerElement.string =
      [.ofBytes (CString.ascii "port"), .ofBytes (CString.ascii "x")] := rfl
  rw [hkeys, hdenoted] at hexact
  obtain ⟨status, hstatus, hrun⟩ := hexact
  have hsuccess : cfgGetAnyJ portManager (.ofBytes (CString.ascii "zowe")) none
      [⟨.ofBytes (CString.ascii "port"), .NORMAL_KEY⟩,
        ⟨.ofBytes (CString.ascii "x"), .NORMAL_KEY⟩] = .ok (ZCFG_SUCCESS, none) := by rfl
  rw [hsuccess] at hrun
  cases hrun
  exact hstatus rfl

end ZoweCommon
