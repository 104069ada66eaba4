import ZoweCommon.Config.ConfigManager
import ZoweCommon.Json.MergeCorrect
import ZoweCommon.Yaml.ReaderCorrect

/-! When the configuration is the merge of what can be read on its path. -/
namespace ZoweCommon

open CLibrary CString Json

/-- What an element of the path stands for. -/
inductive ConfigSource
  | readable (t : Json)
  | missingAllowed
  | missingRequired

/-- The file that an element is read from, and whether it may be missing. -/
inductive FileName (env : Environment) (config : CFGConfig) : ConfigPathElement → CString → Bool → Prop
  | file {element : ConfigPathElement} {name : CString}
      (hfile : element.flags &&& CONFIG_PATH_OMVS_FILE ≠ 0)
      (hpath : getAbsolutePathOrKeepRelativePath env element.data = .ok name) :
      FileName env config element name false
  | parmlib {element : ConfigPathElement} {member : CString}
      (hfile : element.flags &&& CONFIG_PATH_OMVS_FILE = 0)
      (hparmlib : element.flags &&& CONFIG_PATH_MVS_PARMLIB ≠ 0)
      (hmember : config.parmlibMemberName = some member) :
      FileName env config element (pdsMemberSpec element.data member)
        (element.flags &&& CONFIG_PATH_WAS_EXPANDED ≠ 0)

/-- An element is readable if its file holds a document that stands for a tree. -/
inductive IsSource (env : Environment) (config : CFGConfig) : ConfigPathElement → ConfigSource → Prop
  | readable {element : ConfigPathElement} {name : CString} {allowed : Bool} {file : List Byte}
      {doc : YamlDocument} {y : YamlTree} {t : Json}
      (hname : FileName env config element name allowed) (hopen : env.fopen name = some file)
      (hload : env.yaml_parser_load file = some doc) (hrep : y.Rep doc 1)
      (htemplate : y.template = false) (hpart : y.part = .ok (some t)) :
      IsSource env config element (.readable t)
  | missingAllowed {element : ConfigPathElement} {name : CString}
      (hname : FileName env config element name true) (hopen : env.fopen name = none) :
      IsSource env config element .missingAllowed
  | missingRequired {element : ConfigPathElement} {name : CString}
      (hname : FileName env config element name false) (hopen : env.fopen name = none) :
      IsSource env config element .missingRequired

/-- Merging what is readable, the first being the strongest. -/
def mergeReadable (flags : BitVec 32) : List ConfigSource → Option Json
  | [] => none
  | .readable t :: sources =>
    match mergeReadable flags sources with
    | none => some t
    | some base => some (mergeTree flags t base)
  | _ :: sources => mergeReadable flags sources

/-- An address holds a tree, or there is neither. -/
def HoldsData (heap : List JsonNode) : Option ℕ → Option Json → Prop
  | none, none => True
  | some p, some t => Rep heap {i | i < heap.length} p t
  | _, _ => False

/-- With enough fuel, loading succeeds unless something required is missing, and then the data is
the merge of what is readable. -/
def OverlayLaw (env : Environment) (flags : BitVec 32) (config : CFGConfig)
    (first : ConfigPathElement) (rest : List ConfigPathElement) (sources : List ConfigSource) : Prop :=
  ∃ enough, ∀ fuel ≥ enough, ∀ slh, ∃ status config' slh',
    overloadConfiguration env flags fuel slh config first rest = .ok (status, config', slh') ∧
    (status = 0 ↔ .missingRequired ∉ sources) ∧
    (status = 0 → HoldsData slh' config'.configData (mergeReadable flags sources))

variable {env : Environment} {config : CFGConfig} {flags : BitVec 32} {element : ConfigPathElement}
  {heap heap' : List JsonNode}

/-! Reading one element -/

theorem length_le_of_kept (hkept : ∀ i < heap.length, heap'[i]? = heap[i]?) :
    heap.length ≤ heap'.length := by
  by_contra hlt
  have hsome := hkept heap'.length (by omega)
  rw [List.getElem?_eq_none le_rfl, List.getElem?_eq_getElem (by omega)] at hsome
  cases hsome

theorem HoldsData.kept {p : Option ℕ} {t : Option Json} (h : HoldsData heap p t)
    (hkept : ∀ i < heap.length, heap'[i]? = heap[i]?) : HoldsData heap' p t := by
  cases p with
  | none => cases t <;> exact h
  | some p =>
    cases t with
    | none => exact h
    | some t =>
      have hlength := length_le_of_kept hkept
      apply Rep.move _ h
      intro i hi node hnode
      have hlt : i < heap.length := hi
      refine ⟨hlt.trans_le hlength, ?_⟩
      rw [hkept i hi, hnode]

theorem FileName.readJson {name : CString} {allowed : Bool} (h : FileName env config element name allowed)
    (fuel : ℕ) (slh : List JsonNode) : readJson env fuel slh config element =
      (do
        let (json, slh) ← readYamlIntoJson env fuel slh name allowed
        return (json, allowed, slh)) := by
  unfold ZoweCommon.readJson
  cases h with
  | file hfile hpath => rw [if_pos hfile, hpath, Exec.ok_bind]
  | parmlib hfile hparmlib hmember =>
    rw [if_neg (not_not_intro hfile), if_pos hparmlib, hmember]

theorem FileName.readJson_missing {name : CString} {allowed : Bool}
    (h : FileName env config element name allowed) (hopen : env.fopen name = none) (fuel : ℕ)
    (slh : List JsonNode) : ZoweCommon.readJson env fuel slh config element = .ok (none, allowed, slh) := by
  have hread : readYamlIntoJson env fuel slh name allowed = .ok (none, slh) := by
    unfold readYamlIntoJson readYAML2
    rw [hopen]
    dsimp only
    split_ifs <;> rfl
  rw [h.readJson, hread]
  rfl

theorem IsSource.readJson_missingAllowed (h : IsSource env config element .missingAllowed)
    (fuel : ℕ) (slh : List JsonNode) : readJson env fuel slh config element = .ok (none, true, slh) := by
  cases h with
  | missingAllowed hname hopen => exact hname.readJson_missing hopen fuel slh

theorem IsSource.readJson_missingRequired (h : IsSource env config element .missingRequired)
    (fuel : ℕ) (slh : List JsonNode) : readJson env fuel slh config element = .ok (none, false, slh) := by
  cases h with
  | missingRequired hname hopen => exact hname.readJson_missing hopen fuel slh

theorem IsSource.readJson_readable {t : Json} (h : IsSource env config element (.readable t)) :
    ∃ enough, ∀ fuel ≥ enough, ∀ slh, ∃ allowed slh',
      readJson env fuel slh config element = .ok (some slh.length, allowed, slh') ∧
      HoldsData slh' (some slh.length) (some t) ∧ ∀ i < slh.length, slh'[i]? = slh[i]? := by
  obtain ⟨hname, hopen, hload, hrep, htemplate, hpart⟩ := h
  rename_i name allowed file doc y
  use y.height + 1
  intro fuel hfuel slh
  have heq := yaml2JSON_eq hfuel hrep slh
  rw [hpart] at heq
  obtain ⟨slh', hrun, hkept, hholds⟩ := heq
  have hroot : ∃ root, yaml_document_get_root_node doc = some root := by
    unfold yaml2JSON at hrun
    cases hfirst : yaml_document_get_root_node doc with
    | none =>
      rw [hfirst] at hrun
      cases hrun
    | some root => exact ⟨root, rfl⟩
  have hread : readYamlIntoJson env fuel slh name allowed = .ok (some slh.length, slh') := by
    obtain ⟨root, hroot⟩ := hroot
    unfold readYamlIntoJson readYAML2
    rw [hopen]
    dsimp only
    rw [hload]
    dsimp only
    rw [hroot]
    dsimp only
    rw [hrun]
    unfold rootResult
    rw [htemplate]
    rfl
  have hbounds := (hholds t rfl).inBounds
  use allowed, slh'
  rw [hname.readJson, hread]
  exact ⟨rfl, hbounds, hkept⟩

/-! Reading and merging the whole path -/

/-- What loading a path comes to. -/
inductive Loading
  | missing
  | undefined
  | loaded (data : Option Json)

def loading (flags : BitVec 32) : ConfigSource → List ConfigSource → Loading
  | .missingRequired, _ => .missing
  | .missingAllowed, [] => .loaded none
  | .missingAllowed, next :: sources => loading flags next sources
  | .readable t, [] => .loaded (some t)
  | .readable t, next :: sources =>
    match loading flags next sources with
    | .missing => .missing
    | .undefined => .undefined
    | .loaded none => .undefined
    | .loaded (some base) => .loaded (some (mergeTree flags t base))

def Comes (slh : List JsonNode) (run : Exec (ℕ × CFGConfig × List JsonNode)) : Loading → Prop
  | .missing => ∃ config' slh', run = .ok (ZCFG_MISSING_CONFIG_SOURCE, config', slh')
  | .undefined => run = .error .undefinedBehaviour
  | .loaded data => ∃ config' slh', run = .ok (0, config', slh') ∧
      HoldsData slh' config'.configData data ∧ ∀ i < slh.length, slh'[i]? = slh[i]?

variable {first : ConfigPathElement} {rest : List ConfigPathElement} {source : ConfigSource}
  {sources : List ConfigSource}

theorem overloadConfiguration_one (hsource : IsSource env config first source) :
    ∃ enough, ∀ fuel ≥ enough, ∀ slh,
      Comes slh (overloadConfiguration env flags fuel slh config first []) (loading flags source []) := by
  cases source with
  | readable t =>
    obtain ⟨enough, hread⟩ := hsource.readJson_readable
    use enough
    intro fuel hfuel slh
    obtain ⟨allowed, slh', hrun, hholds, hkept⟩ := hread fuel hfuel slh
    use { config with configData := some slh.length }, slh'
    rw [overloadConfiguration, hrun]
    exact ⟨rfl, hholds, hkept⟩
  | missingAllowed =>
    use 0
    intro fuel _ slh
    use { config with configData := none }, slh
    rw [overloadConfiguration, hsource.readJson_missingAllowed]
    exact ⟨rfl, trivial, fun _ _ => rfl⟩
  | missingRequired =>
    use 0
    intro fuel _ slh
    use { config with configData := none }, slh
    rw [overloadConfiguration, hsource.readJson_missingRequired]
    rfl

theorem overloadConfiguration_missingAllowed {next : ConfigPathElement}
    (hsource : IsSource env config first .missingAllowed) (fuel : ℕ) (slh : List JsonNode) :
    overloadConfiguration env flags fuel slh config first (next :: rest) =
      overloadConfiguration env flags fuel slh config next rest := by
  rw [overloadConfiguration, hsource.readJson_missingAllowed, Exec.ok_bind]
  dsimp only
  rw [if_neg (by decide)]
  cases overloadConfiguration env flags fuel slh config next rest with
  | error fault => rfl
  | ok result =>
    obtain ⟨status, config', slh'⟩ := result
    rw [Exec.ok_bind]
    dsimp only
    split_ifs with hstatus
    · rfl
    · rw [not_not.mp hstatus]
      rfl

theorem overloadConfiguration_readable {next : ConfigPathElement} {nextSource : ConfigSource} {t : Json}
    (hsource : IsSource env config first (.readable t))
    (hrest : ∃ enough, ∀ fuel ≥ enough, ∀ slh, Comes slh
      (overloadConfiguration env flags fuel slh config next rest) (loading flags nextSource sources)) :
    ∃ enough, ∀ fuel ≥ enough, ∀ slh, Comes slh
      (overloadConfiguration env flags fuel slh config first (next :: rest))
      (loading flags (.readable t) (nextSource :: sources)) := by
  obtain ⟨enoughFirst, hread⟩ := hsource.readJson_readable
  obtain ⟨enoughRest, hrest⟩ := hrest
  rw [loading]
  cases hloading : loading flags nextSource sources with
  | missing =>
    use max enoughFirst enoughRest
    intro fuel hfuel slh
    obtain ⟨allowed, slh₁, hrun, hholds, hkept⟩ := hread fuel (by omega) slh
    have hcomes := hrest fuel (by omega) slh₁
    rw [hloading] at hcomes
    obtain ⟨config', slh', htail⟩ := hcomes
    use config', slh'
    rw [overloadConfiguration, hrun, Exec.ok_bind]
    dsimp only
    rw [if_neg (by simp), htail]
    rfl
  | undefined =>
    use max enoughFirst enoughRest
    intro fuel hfuel slh
    obtain ⟨allowed, slh₁, hrun, hholds, hkept⟩ := hread fuel (by omega) slh
    have hcomes := hrest fuel (by omega) slh₁
    rw [hloading] at hcomes
    have htail : overloadConfiguration env flags fuel slh₁ config next rest =
      .error .undefinedBehaviour := hcomes
    have hall : overloadConfiguration env flags fuel slh config first (next :: rest) =
        .error .undefinedBehaviour := by
      rw [overloadConfiguration, hrun, Exec.ok_bind]
      dsimp only
      rw [if_neg (by simp), htail]
      rfl
    exact hall
  | loaded data =>
    cases data with
    | none =>
      use max enoughFirst enoughRest
      intro fuel hfuel slh
      obtain ⟨allowed, slh₁, hrun, hholds, hkept⟩ := hread fuel (by omega) slh
      have hcomes := hrest fuel (by omega) slh₁
      rw [hloading] at hcomes
      obtain ⟨config', slh', htail, hnone, -⟩ := hcomes
      have hdata : config'.configData = none := by
        cases hconfig : config'.configData with
        | none => rfl
        | some p =>
          rw [hconfig] at hnone
          exact absurd hnone not_false
      -- the base is a null pointer
      have hall : overloadConfiguration env flags fuel slh config first (next :: rest) =
          .error .undefinedBehaviour := by
        rw [overloadConfiguration, hrun, Exec.ok_bind]
        dsimp only
        rw [if_neg (by simp), htail, Exec.ok_bind]
        dsimp only
        rw [if_neg (by simp), hdata]
        rfl
      exact hall
    | some b =>
      use max (max enoughFirst enoughRest) (max t.height b.height + 2)
      intro fuel hfuel slh
      obtain ⟨allowed, slh₁, hrun, hholds, hkept⟩ := hread fuel (by omega) slh
      have hcomes := hrest fuel (by omega) slh₁
      rw [hloading] at hcomes
      obtain ⟨config', slh₂, htail, hbase, hkept'⟩ := hcomes
      cases hdata : config'.configData with
      | none =>
        rw [hdata] at hbase
        exact absurd hbase not_false
      | some base =>
        rw [hdata] at hbase
        have hoverlay : HoldsData slh₂ (some slh.length) (some t) := hholds.kept hkept'
        obtain ⟨root, slh', hmerge, hmerged, hlength, hkept''⟩ :=
          @jsonMerge_ok flags fuel _ _ _ _ _ hoverlay hbase (by omega)
        use { config' with configData := some root }, slh'
        have hlength₁ := length_le_of_kept hkept
        have hlength₂ := length_le_of_kept hkept'
        refine ⟨?_, hmerged.inBounds, ?_⟩
        · rw [overloadConfiguration, hrun, Exec.ok_bind]
          dsimp only
          rw [if_neg (by simp), htail, Exec.ok_bind]
          dsimp only
          rw [if_neg (by simp), hdata]
          dsimp only
          rw [hmerge]
          rfl
        · intro i hi
          rw [hkept'' i (by omega), hkept' i (by omega), hkept i hi]

theorem overloadConfiguration_comes
    (hsources : List.Forall₂ (IsSource env config) (first :: rest) (source :: sources)) :
    ∃ enough, ∀ fuel ≥ enough, ∀ slh,
      Comes slh (overloadConfiguration env flags fuel slh config first rest)
        (loading flags source sources) := by
  induction rest generalizing first source sources with
  | nil =>
    obtain ⟨hsource, hnil⟩ := List.forall₂_cons.mp hsources
    cases hnil
    exact overloadConfiguration_one hsource
  | cons next rest ih =>
    obtain ⟨hsource, hrest⟩ := List.forall₂_cons.mp hsources
    cases sources with
    | nil => cases hrest
    | cons nextSource sources =>
      obtain ⟨enough, hcomes⟩ := ih hrest
      cases source with
      | readable t => exact overloadConfiguration_readable hsource ⟨enough, hcomes⟩
      | missingAllowed =>
        use enough
        intro fuel hfuel slh
        rw [overloadConfiguration_missingAllowed hsource, loading]
        exact hcomes fuel hfuel slh
      | missingRequired =>
        use 0
        intro fuel _ slh
        use config, slh
        rw [overloadConfiguration, hsource.readJson_missingRequired]
        rfl

/-! What the path comes to, from its sources -/

/-- The path goes wrong at its end: something has to be merged with nothing. -/
def MergesWithNothing (sources : List ConfigSource) : Prop :=
  .missingRequired ∉ sources ∧ sources.getLast? = some .missingAllowed ∧
    ∃ t, .readable t ∈ sources

theorem mergeReadable_eq_none {sources : List ConfigSource} :
    mergeReadable flags sources = none ↔ ∀ t, .readable t ∉ sources := by
  induction sources with
  | nil => simp [mergeReadable]
  | cons source sources ih =>
    cases source with
    | readable t =>
      have hsome : mergeReadable flags (.readable t :: sources) ≠ none := by
        rw [mergeReadable]
        split <;> exact nofun
      constructor
      · exact fun h => absurd h hsome
      · exact fun h => absurd List.mem_cons_self (h t)
    | missingAllowed => simpa [mergeReadable] using ih
    | missingRequired => simpa [mergeReadable] using ih

theorem getLast?_eq_missingAllowed (hrequired : .missingRequired ∉ source :: sources)
    (hreadable : ∀ t, .readable t ∉ source :: sources) :
    (source :: sources).getLast? = some .missingAllowed := by
  have hlast := List.getLast?_eq_some_getLast (List.cons_ne_nil source sources)
  have hmem := List.getLast_mem (List.cons_ne_nil source sources)
  rw [hlast]
  cases hkind : (source :: sources).getLast (List.cons_ne_nil source sources) with
  | readable t =>
    rw [hkind] at hmem
    exact absurd hmem (hreadable t)
  | missingAllowed => rfl
  | missingRequired =>
    rw [hkind] at hmem
    exact absurd hmem hrequired

theorem mergesWithNothing_cons {next : ConfigSource} (hrequired : source ≠ .missingRequired)
    (h : MergesWithNothing (next :: sources)) : MergesWithNothing (source :: next :: sources) := by
  obtain ⟨hnone, hlast, t, ht⟩ := h
  constructor
  · intro hmem
    cases List.mem_cons.mp hmem with
    | inl heq => exact hrequired heq.symm
    | inr hrest => exact hnone hrest
  · exact ⟨hlast, t, List.mem_cons_of_mem source ht⟩

/-- What the path comes to says which kind of path it is. -/
def Tells (flags : BitVec 32) (sources : List ConfigSource) : Loading → Prop
  | .missing => .missingRequired ∈ sources
  | .undefined => MergesWithNothing sources
  | .loaded data => .missingRequired ∉ sources ∧ ¬MergesWithNothing sources ∧
      data = mergeReadable flags sources

theorem loading_tells (flags : BitVec 32) (source : ConfigSource) (sources : List ConfigSource) :
    Tells flags (source :: sources) (loading flags source sources) := by
  induction sources generalizing source with
  | nil =>
    cases source with
    | readable t => simp [loading, Tells, MergesWithNothing, mergeReadable]
    | missingAllowed => simp [loading, Tells, MergesWithNothing, mergeReadable]
    | missingRequired => simp [loading, Tells]
  | cons next sources ih =>
    have hrest := ih next
    cases source with
    | missingRequired => exact List.mem_cons_self
    | missingAllowed =>
      rw [loading]
      cases hloading : loading flags next sources with
      | missing =>
        rw [hloading] at hrest
        exact List.mem_cons_of_mem _ hrest
      | undefined =>
        rw [hloading] at hrest
        exact mergesWithNothing_cons (by simp) hrest
      | loaded data =>
        rw [hloading] at hrest
        obtain ⟨hrequired, hnot, hdata⟩ := hrest
        refine ⟨by simpa using hrequired, ?_, hdata⟩
        intro ⟨_, hlast, t, ht⟩
        have hmem : .readable t ∈ next :: sources := by simpa using ht
        exact hnot ⟨hrequired, hlast, t, hmem⟩
    | readable t =>
      rw [loading]
      cases hloading : loading flags next sources with
      | missing =>
        rw [hloading] at hrest
        exact List.mem_cons_of_mem _ hrest
      | undefined =>
        rw [hloading] at hrest
        exact mergesWithNothing_cons (by simp) hrest
      | loaded data =>
        rw [hloading] at hrest
        obtain ⟨hrequired, hnot, hdata⟩ := hrest
        have hrequired' : .missingRequired ∉ .readable t :: next :: sources := by
          simpa using hrequired
        cases data with
        | none =>
          have hlast := getLast?_eq_missingAllowed hrequired (mergeReadable_eq_none.mp hdata.symm)
          exact ⟨hrequired', hlast, t, List.mem_cons_self⟩
        | some b =>
          refine ⟨hrequired', ?_, ?_⟩
          · intro ⟨_, hlast, _⟩
            have hreadable : ∃ u, .readable u ∈ next :: sources := by
              by_contra hnone
              have hempty : mergeReadable flags (next :: sources) = none :=
                mergeReadable_eq_none.mpr fun u hu => hnone ⟨u, hu⟩
              rw [hempty] at hdata
              cases hdata
            exact hnot ⟨hrequired, hlast, hreadable⟩
          · rw [mergeReadable, ← hdata]

/-- A run without meaning has no status. -/
theorem not_overlayLaw_of_undefined
    (hsources : List.Forall₂ (IsSource env config) (first :: rest) (source :: sources))
    (hloading : loading flags source sources = .undefined) :
    ¬OverlayLaw env flags config first rest (source :: sources) := by
  intro ⟨enough', hlaw⟩
  obtain ⟨enough, hcomes⟩ := @overloadConfiguration_comes _ _ flags _ _ _ _ hsources
  obtain ⟨status, config', slh', hrun, -⟩ := hlaw (max enough enough') (by omega) []
  have hundefined := hcomes (max enough enough') (by omega) []
  rw [hloading] at hundefined
  have hfault : overloadConfiguration env flags (max enough enough') [] config first rest =
    .error .undefinedBehaviour := hundefined
  rw [hfault] at hrun
  cases hrun

/-- Loading is the right fold of the path, unless something readable has only elements behind it
that may be missing, and are. -/
theorem overlayLaw_iff
    (hsources : List.Forall₂ (IsSource env config) (first :: rest) (source :: sources)) :
    OverlayLaw env flags config first rest (source :: sources) ↔
      ¬(.missingRequired ∉ source :: sources ∧
        (source :: sources).getLast? = some .missingAllowed ∧ ∃ t, .readable t ∈ source :: sources) := by
  obtain ⟨enough, hcomes⟩ := @overloadConfiguration_comes _ _ flags _ _ _ _ hsources
  have htells := loading_tells flags source sources
  cases hloading : loading flags source sources with
  | missing =>
    rw [hloading] at htells
    simp only [hloading] at hcomes
    constructor
    · intro _ ⟨hrequired, _⟩
      exact hrequired htells
    · intro _
      use enough
      intro fuel hfuel slh
      obtain ⟨config', slh', hrun⟩ := hcomes fuel hfuel slh
      have hstatus : ZCFG_MISSING_CONFIG_SOURCE ≠ 0 := by decide
      exact ⟨_, config', slh', hrun, iff_of_false hstatus (not_not_intro htells),
        fun hzero => absurd hzero hstatus⟩
  | undefined =>
    rw [hloading] at htells
    constructor
    · exact fun hlaw _ => not_overlayLaw_of_undefined hsources hloading hlaw
    · exact fun hnot => absurd htells hnot
  | loaded data =>
    rw [hloading] at htells
    simp only [hloading] at hcomes
    obtain ⟨hrequired, hnot, hdata⟩ := htells
    constructor
    · exact fun _ => hnot
    · intro _
      use enough
      intro fuel hfuel slh
      obtain ⟨config', slh', hrun, hholds, -⟩ := hcomes fuel hfuel slh
      rw [hdata] at hholds
      exact ⟨0, config', slh', hrun, iff_of_true rfl hrequired, fun _ => hholds⟩

/-! A file next to a member of PARMLIB that is not there -/

/-- The file `a` holds a null, and there is no other file. -/
def oneFile : Environment where
  realpath := fun _ => none
  fopen := fun name => if name = ofBytes (ascii "a") then some (ascii "~") else none
  yaml_parser_load := fun _ => some ⟨[.scalar YAML_NULL_TAG (ascii "~") .YAML_PLAIN_SCALAR_STYLE]⟩

def oneFileConfig : CFGConfig := ⟨[], some (ofBytes (ascii "ZWEYAML")), none⟩

def fileElement : ConfigPathElement := ⟨CONFIG_PATH_OMVS_FILE, ofBytes (ascii "a")⟩

def expandedElement : ConfigPathElement :=
  ⟨CONFIG_PATH_MVS_PARMLIB ||| CONFIG_PATH_WAS_EXPANDED, ofBytes (ascii "SYS1.PARMLIB")⟩

theorem fileElement_readable : IsSource oneFile oneFileConfig fileElement (.readable (.scalar .null)) := by
  have hname : FileName oneFile oneFileConfig fileElement (ofBytes (ascii "a")) false :=
    .file (by decide) rfl
  have hopen : oneFile.fopen (ofBytes (ascii "a")) = some (ascii "~") := rfl
  have hrep : (YamlTree.scalar YAML_NULL_TAG (ascii "~") .YAML_PLAIN_SCALAR_STYLE).Rep
    ⟨[.scalar YAML_NULL_TAG (ascii "~") .YAML_PLAIN_SCALAR_STYLE]⟩ 1 := rfl
  exact .readable hname hopen rfl hrep (by decide) rfl

theorem expandedElement_missing : IsSource oneFile oneFileConfig expandedElement .missingAllowed := by
  have hname : FileName oneFile oneFileConfig expandedElement
      (pdsMemberSpec expandedElement.data (ofBytes (ascii "ZWEYAML"))) true :=
    .parmlib (by decide) (by decide) rfl
  exact .missingAllowed hname (by decide)

theorem overlayLaw_iff_file_last : OverlayLaw oneFile JsonBuilder.JSON_MERGE_FLAG_CONCATENATE_ARRAYS oneFileConfig
    expandedElement [fileElement] [.missingAllowed, .readable (.scalar .null)] := by
  apply (overlayLaw_iff (.cons expandedElement_missing (.cons fileElement_readable .nil))).mpr
  intro ⟨_, hlast, _⟩
  cases hlast

theorem not_overlayLaw_file_first :
    List.Forall₂ (IsSource oneFile oneFileConfig) [fileElement, expandedElement]
      [.readable (.scalar .null), .missingAllowed] ∧
    ¬OverlayLaw oneFile JsonBuilder.JSON_MERGE_FLAG_CONCATENATE_ARRAYS oneFileConfig fileElement [expandedElement]
      [.readable (.scalar .null), .missingAllowed] := by
  have hsources : List.Forall₂ (IsSource oneFile oneFileConfig) [fileElement, expandedElement]
      [.readable (.scalar .null), .missingAllowed] :=
    .cons fileElement_readable (.cons expandedElement_missing .nil)
  exact ⟨hsources, not_overlayLaw_of_undefined hsources rfl⟩

end ZoweCommon
