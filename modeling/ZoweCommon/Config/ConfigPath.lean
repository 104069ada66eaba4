import ZoweCommon.Basic.Utils
import ZoweCommon.Config.LoadAtomic
import ZoweCommon.Lib.Segments

/-! The path of a configuration is built from an argument, one element after the other. The
parameter `parmlibs` has what is added for the parmlibs of the system: nothing but on z/OS. -/
namespace ZoweCommon
namespace ConfigPath

open CString Segments Utils

def ZCFG_BAD_CONFIG_PATH : ℕ := 4

def CONFIG_PATH_OMVS_DIR : BitVec 32 := 0x0002
def CONFIG_PATH_OMVS_LIBRARY : BitVec 32 := 0x0004
def CONFIG_PATH_MVS_PARMLIBS : BitVec 32 := 0x0010

def COLON : Byte := 0x3A

def elementTypeNames : List (List Byte) :=
  [ascii "LIBRARY", ascii "DIR", ascii "FILE", ascii "PARMLIBS", ascii "PARMLIB"]

/-- What the groups of `^(LIBRARY|DIR|FILE|PARMLIBS|PARMLIB)\(([^)]+)\)$` match. -/
def matchElement (s : List Byte) : Option (List Byte × List Byte) :=
  let name := s.takeWhile (· ≠ 0x28)
  let data := (s.drop (name.length + 1)).takeWhile (· ≠ 0x29)
  if name ∈ elementTypeNames ∧ data ≠ [] ∧ s = name ++ 0x28 :: (data ++ [0x29]) then
    some (name, data)
  else none

def makePathElement (config : CFGConfig) (flags : BitVec 32) (data : List Byte) : CFGConfig :=
  { config with configPath := config.configPath ++ [⟨flags, ofBytes data⟩] }

def addExpandedParmlibs (parmlibs : List ConfigPathElement) (config : CFGConfig) : CFGConfig :=
  { config with configPath := config.configPath ++ parmlibs }

def elementFlags (elementTypeName : List Byte) : Option (BitVec 32) :=
  if elementTypeName = ascii "LIBRARY" then some CONFIG_PATH_OMVS_LIBRARY
  else if elementTypeName = ascii "DIR" then some CONFIG_PATH_OMVS_DIR
  else if elementTypeName = ascii "FILE" then some CONFIG_PATH_OMVS_FILE
  else if elementTypeName = ascii "PARMLIB" then some CONFIG_PATH_MVS_PARMLIB
  else if elementTypeName = ascii "PARMLIBS" then some CONFIG_PATH_MVS_PARMLIBS
  else none

def addPathElement (parmlibs : List ConfigPathElement) (config : CFGConfig)
    (pathElementArg : List Byte) : Bool × CFGConfig :=
  match matchElement pathElementArg with
  | some groups =>
    match elementFlags groups.1 with
    | some flags =>
      if flags &&& CONFIG_PATH_MVS_PARMLIBS = 0 then (true, makePathElement config flags groups.2)
      else (true, addExpandedParmlibs parmlibs config)
    | none => (false, config)
  | none => (false, config)

/-- The loop, from a position on: the status, and the configuration with what was added. Behind
the last colon the loop ends at the end of the argument. -/
def buildConfigPathFrom (parmlibs : List ConfigPathElement) (configPathArg : List Byte) (pos : ℕ)
    (config : CFGConfig) : ℕ × CFGConfig :=
  if _h : pos < configPathArg.length then
    match _hcolon : Utils.indexOf configPathArg COLON pos with
    | none =>
      let added := addPathElement parmlibs config (configPathArg.drop pos)
      (if added.1 then 0 else 12, added.2)
    | some nextColon =>
      let added := addPathElement parmlibs config ((configPathArg.drop pos).take (nextColon - pos))
      if added.1 then buildConfigPathFrom parmlibs configPathArg (nextColon + 1) added.2
      else (12, added.2)
  else (0, config)
termination_by configPathArg.length - pos
decreasing_by
  obtain ⟨i, -, rfl⟩ := Option.map_eq_some_iff.mp _hcolon
  omega

/-- The length of the argument is an `int`. -/
def counted (configPathArg : CString) : CString :=
  ofBytes (configPathArg.bytes.take (BitVec.ofNat 32 configPathArg.bytes.length).toInt.toNat)

def buildConfigPath (parmlibs : List ConfigPathElement) (config : CFGConfig)
    (configPathArg : CString) : ℕ × CFGConfig :=
  buildConfigPathFrom parmlibs (counted configPathArg).bytes 0 config

def cfgSetConfigPath (parmlibs : List ConfigPathElement) (mgr : ConfigManager)
    (configName configPathArg : CString) : ℕ × ConfigManager :=
  match getConfig mgr configName with
  | none => (ZCFG_UNKNOWN_CONFIG_NAME, mgr)
  | some config =>
    let built := buildConfigPath parmlibs config configPathArg
    let mgr := { mgr with configs := replaceConfig configName built.2 mgr.configs }
    if built.1 ≠ 0 then (ZCFG_BAD_CONFIG_PATH, mgr) else (ZCFG_SUCCESS, mgr)

/-! What an argument says -/

variable (parmlibs : List ConfigPathElement)

/-- The elements that a piece of the argument stands for, unless it is ill-formed. -/
def pieceElements (piece : List Byte) : Option (List ConfigPathElement) :=
  (matchElement piece).bind fun groups =>
    if groups.1 = ascii "PARMLIBS" then some parmlibs
    else (elementFlags groups.1).map fun flags => [⟨flags, ofBytes groups.2⟩]

/-- The elements of an argument, unless a piece between colons is ill-formed. -/
def pathElements (configPathArg : CString) : Option (List ConfigPathElement) :=
  ((segments COLON configPathArg.bytes).mapM (pieceElements parmlibs)).map List.flatten

def withPath (mgr : ConfigManager) (configName : CString) (config : CFGConfig)
    (configPath : List ConfigPathElement) : ConfigManager :=
  { mgr with
    configs := replaceConfig configName { config with configPath := configPath } mgr.configs }

/-- The path is set to the elements of the argument, or left as it was when there is an error. -/
structure SetsConfigPath (mgr : ConfigManager) (configName configPathArg : CString) : Prop where
  success : (cfgSetConfigPath parmlibs mgr configName configPathArg).1 = ZCFG_SUCCESS →
    ∃ config elements, getConfig mgr configName = some config ∧
      pathElements parmlibs configPathArg = some elements ∧
      (cfgSetConfigPath parmlibs mgr configName configPathArg).2 =
        withPath mgr configName config elements
  error : (cfgSetConfigPath parmlibs mgr configName configPathArg).1 ≠ ZCFG_SUCCESS →
    (cfgSetConfigPath parmlibs mgr configName configPathArg).2 = mgr

/-! One piece -/

theorem matchElement_eq_some {s name data : List Byte} :
    matchElement s = some (name, data) ↔
      name ∈ elementTypeNames ∧ data ≠ [] ∧ 0x29 ∉ data ∧ s = name ++ 0x28 :: (data ++ [0x29]) := by
  have hnames : ∀ name ∈ elementTypeNames, (0x28 : Byte) ∉ name := by decide
  unfold matchElement
  dsimp only
  constructor
  · intro h
    split_ifs at h with hmatch
    obtain ⟨hname, hdata, hs⟩ := hmatch
    rw [Option.some_inj, Prod.mk.injEq] at h
    obtain ⟨rfl, rfl⟩ := h
    refine ⟨hname, hdata, fun hmem => ?_, hs⟩
    have hne := List.mem_takeWhile_imp hmem
    simp at hne
  · rintro ⟨hname, hdata, hclose, rfl⟩
    have htake : ∀ (c : Byte) (before after : List Byte), c ∉ before →
        (before ++ c :: after).takeWhile (fun b => decide (b ≠ c)) = before := by
      intro c before after hnot
      rw [List.takeWhile_append_of_pos, List.takeWhile_cons_of_neg (by simp), List.append_nil]
      intro b hb
      have hne : b ≠ c := fun heq => hnot (heq ▸ hb)
      simpa using hne
    have hdrop : (name ++ 0x28 :: (data ++ [0x29])).drop (name.length + 1) = data ++ [0x29] := by
      rw [← List.drop_drop, List.drop_left]
      rfl
    rw [htake 0x28 name _ (hnames name hname), hdrop, htake 0x29 data [] hclose,
      if_pos ⟨hname, hdata, rfl⟩]

theorem addPathElement_eq (config : CFGConfig) (piece : List Byte) :
    addPathElement parmlibs config piece = ((pieceElements parmlibs piece).isSome, { config with
      configPath := config.configPath ++ (pieceElements parmlibs piece).getD [] }) := by
  have hnone : (false, config) = ((none : Option (List ConfigPathElement)).isSome,
      { config with configPath := config.configPath ++ (none : Option _).getD [] }) := by
    rw [Option.getD_none, List.append_nil]
    rfl
  unfold addPathElement pieceElements
  cases hmatch : matchElement piece with
  | none => exact hnone
  | some groups =>
    obtain ⟨name, data⟩ := groups
    obtain ⟨hname, -⟩ := matchElement_eq_some.mp hmatch
    have hcases : name = ascii "LIBRARY" ∨ name = ascii "DIR" ∨ name = ascii "FILE" ∨
        name = ascii "PARMLIBS" ∨ name = ascii "PARMLIB" := by
      simpa [elementTypeNames] using hname
    rcases hcases with rfl | rfl | rfl | rfl | rfl <;> rfl

/-! The loop -/

def leadingElements : List (List Byte) → List ConfigPathElement
  | [] => []
  | piece :: pieces =>
    match pieceElements parmlibs piece with
    | none => []
    | some elements => elements ++ leadingElements pieces

theorem leadingElements_of_some {pieces : List (List Byte)}
    {elements : List (List ConfigPathElement)} (h : pieces.mapM (pieceElements parmlibs) = some elements) :
    leadingElements parmlibs pieces = elements.flatten := by
  induction pieces generalizing elements with
  | nil =>
    rw [List.mapM_nil] at h
    cases h
    rfl
  | cons piece pieces ih =>
    rw [List.mapM_cons] at h
    obtain ⟨first, hfirst, h⟩ := Option.bind_eq_some_iff.mp h
    obtain ⟨rest, hrest, h⟩ := Option.bind_eq_some_iff.mp h
    cases h
    rw [leadingElements, hfirst, List.flatten_cons, ← ih hrest]

theorem buildConfigPathFrom_cons {configPathArg : List Byte} {pos : ℕ}
    (hpos : pos < configPathArg.length) (config : CFGConfig) :
    ∃ piece nextPos, segments COLON (configPathArg.drop pos) =
        piece :: segments COLON (configPathArg.drop nextPos) ∧ pos < nextPos ∧
      buildConfigPathFrom parmlibs configPathArg pos config =
        if (addPathElement parmlibs config piece).1 then
          buildConfigPathFrom parmlibs configPathArg nextPos (addPathElement parmlibs config piece).2
        else (12, (addPathElement parmlibs config piece).2) := by
  have hne : configPathArg.drop pos ≠ [] := by
    rw [ne_eq, List.drop_eq_nil_iff]
    omega
  cases hcolon : Utils.indexOf configPathArg COLON pos with
  | none =>
    refine ⟨configPathArg.drop pos, configPathArg.length, ?_, hpos, ?_⟩
    · rw [indexOf_from, Option.map_eq_none_iff] at hcolon
      rw [segments_of_notMem (indexOf_zero_none hcolon) hne, List.drop_length, segments_nil]
    · have hend : ∀ config, buildConfigPathFrom parmlibs configPathArg configPathArg.length config =
          (0, config) := by
        intro config
        rw [buildConfigPathFrom, dif_neg (Nat.lt_irrefl _)]
      rw [buildConfigPathFrom, dif_pos hpos, hcolon, hend]
      dsimp only
      split <;> rfl
  | some nextColon =>
    have hfrom := hcolon
    rw [indexOf_from] at hfrom
    obtain ⟨i, hi, rfl⟩ := Option.map_eq_some_iff.mp hfrom
    obtain ⟨before, after, hsplit, hbefore, rfl⟩ := indexOf_zero_some hi
    have htake : (configPathArg.drop pos).take before.length = before := by
      rw [hsplit, List.take_left]
    have hdrop : configPathArg.drop (pos + before.length + 1) = after := by
      rw [Nat.add_assoc, ← List.drop_drop, hsplit, ← List.drop_drop, List.drop_left]
      rfl
    refine ⟨before, pos + before.length + 1, ?_, by omega, ?_⟩
    · rw [hdrop, hsplit]
      exact segments_append_cons hbefore after
    · rw [buildConfigPathFrom, dif_pos hpos, hcolon]
      dsimp only
      rw [Nat.add_sub_cancel_left, htake]

/-- By recursion on what is left of the argument: what the pieces stand for is added, up to the
first ill-formed one. -/
theorem buildConfigPathFrom_eq {configPathArg : List Byte} {n : ℕ} : ∀ {pos : ℕ}
    (config : CFGConfig), configPathArg.length - pos ≤ n →
    buildConfigPathFrom parmlibs configPathArg pos config =
      (if ((segments COLON (configPathArg.drop pos)).mapM (pieceElements parmlibs)).isSome then 0
        else 12,
      { config with configPath := config.configPath ++
        leadingElements parmlibs (segments COLON (configPathArg.drop pos)) }) := by
  induction n with
  | zero =>
    intro pos config hleft
    have hdrop : configPathArg.drop pos = [] := List.drop_eq_nil_iff.mpr (by omega)
    rw [buildConfigPathFrom, dif_neg (by omega), hdrop, segments_nil, leadingElements,
      List.append_nil]
    rfl
  | succ n ih =>
    intro pos config hleft
    by_cases hpos : pos < configPathArg.length
    · obtain ⟨piece, nextPos, hsegments, hnext, hrun⟩ :=
        buildConfigPathFrom_cons parmlibs hpos config
      rw [hrun, hsegments, addPathElement_eq, List.mapM_cons, leadingElements]
      cases hpiece : pieceElements parmlibs piece with
      | none =>
        rw [Option.getD_none]
        rfl
      | some elements =>
        dsimp only
        rw [Option.isSome_some, if_pos rfl, ih _ (by omega), Option.getD_some]
        dsimp only
        rw [List.append_assoc]
        cases (segments COLON (configPathArg.drop nextPos)).mapM (pieceElements parmlibs) <;> rfl
    · exact @ih pos config (by omega)

theorem buildConfigPath_eq (config : CFGConfig) (configPathArg : CString) :
    buildConfigPath parmlibs config configPathArg =
      (if (pathElements parmlibs (counted configPathArg)).isSome then 0 else 12,
      { config with configPath := config.configPath ++
        leadingElements parmlibs (segments COLON (counted configPathArg).bytes) }) := by
  have heq := @buildConfigPathFrom_eq parmlibs (counted configPathArg).bytes _ 0 config le_rfl
  unfold buildConfigPath pathElements
  rw [heq, List.drop_zero, Option.isSome_map]

/-! The path that is set -/

section withPath

variable {mgr : ConfigManager} {configName : CString} {config : CFGConfig}
  (h : getConfig mgr configName = some config)
include h

theorem withPath_self : withPath mgr configName config config.configPath = mgr := by
  obtain ⟨configs, slh⟩ := mgr
  have hself : replaceConfig configName config configs = configs := by
    unfold getConfig at h
    dsimp only at h
    induction configs with
    | nil => cases h
    | cons c configs ih =>
      rw [replaceConfig]
      by_cases hname : c.1 = configName
      · rw [List.find?_cons_of_pos (by simpa using hname), Option.map_some, Option.some_inj] at h
        rw [if_pos hname, ← h]
      · rw [List.find?_cons_of_neg (by simpa using hname)] at h
        rw [if_neg hname, ih h]
  exact congrArg (ConfigManager.mk · slh) hself

/-- The manager tells what the path was changed to. -/
theorem withPath_inj {configPath configPath' : List ConfigPathElement}
    (heq : withPath mgr configName config configPath =
      withPath mgr configName config configPath') : configPath = configPath' := by
  have hget : ∀ configPath, getConfig (withPath mgr configName config configPath) configName =
      some { config with configPath := configPath } := fun _ => getConfig_replaceConfig h
  have hsame := (hget configPath).symm.trans ((congrArg (getConfig · configName) heq).trans
    (hget configPath'))
  rw [Option.some_inj, CFGConfig.mk.injEq] at hsame
  exact hsame.1

end withPath

/-- What was on the path, followed by the elements of the part that is counted, are the elements
of the argument, or that part is ill-formed and has none before the first ill-formed piece. -/
structure PathMayBeSet (configPath : List ConfigPathElement) (configPathArg : CString) : Prop where
  formed : ∀ elements, pathElements parmlibs (counted configPathArg) = some elements →
    pathElements parmlibs configPathArg = some (configPath ++ elements)
  illFormed : pathElements parmlibs (counted configPathArg) = none →
    leadingElements parmlibs (segments COLON (counted configPathArg).bytes) = []

/-- All of an argument is counted whose length fits in an `int`. Then the path has to be empty. -/
theorem pathMayBeSet_iff {configPathArg : CString} (h : configPathArg.bytes.length < 2 ^ 31)
    (configPath : List ConfigPathElement) :
    PathMayBeSet parmlibs configPath configPathArg ↔
      if (pathElements parmlibs configPathArg).isSome then configPath = []
      else leadingElements parmlibs (segments COLON configPathArg.bytes) = [] := by
  have hcounted : counted configPathArg = configPathArg := by
    unfold counted
    rw [CLibrary.toInt_length h, Int.toNat_natCast, List.take_length, ofBytes_bytes]
  constructor
  · intro hset
    obtain ⟨hformed, hill⟩ := hset
    rw [hcounted] at hformed hill
    cases helements : pathElements parmlibs configPathArg with
    | none => exact hill helements
    | some elements =>
      have hsame := helements.symm.trans (hformed elements helements)
      rw [Option.some_inj, List.self_eq_append_left] at hsame
      exact hsame
  · intro hset
    constructor
    · intro elements helements
      rw [hcounted] at helements
      rw [helements] at hset
      rw [helements, show configPath = [] from hset, List.nil_append]
    · intro hnone
      rw [hcounted] at hnone ⊢
      rw [hnone] at hset
      exact hset

section set

variable {mgr : ConfigManager} {configName : CString} {config : CFGConfig}
  (h : getConfig mgr configName = some config) {configPathArg : CString}
include h

/-- Without an error the elements have been added. -/
theorem cfgSetConfigPath_formed {elements : List ConfigPathElement}
    (helements : pathElements parmlibs (counted configPathArg) = some elements) :
    cfgSetConfigPath parmlibs mgr configName configPathArg =
      (ZCFG_SUCCESS, withPath mgr configName config (config.configPath ++ elements)) := by
  obtain ⟨pieces, hpieces, hflatten⟩ := Option.map_eq_some_iff.mp helements
  unfold cfgSetConfigPath
  rw [h]
  dsimp only
  rw [buildConfigPath_eq, helements, leadingElements_of_some parmlibs hpieces, hflatten]
  rfl

theorem cfgSetConfigPath_illFormed (hnone : pathElements parmlibs (counted configPathArg) = none) :
    cfgSetConfigPath parmlibs mgr configName configPathArg =
      (ZCFG_BAD_CONFIG_PATH, withPath mgr configName config (config.configPath ++
        leadingElements parmlibs (segments COLON (counted configPathArg).bytes))) := by
  unfold cfgSetConfigPath
  rw [h]
  dsimp only
  rw [buildConfigPath_eq, hnone]
  rfl

theorem SetsConfigPath.pathMayBeSet (hset : SetsConfigPath parmlibs mgr configName configPathArg) :
    PathMayBeSet parmlibs config.configPath configPathArg := by
  obtain ⟨hsuccess, herror⟩ := hset
  constructor
  · intro elements helements
    rw [cfgSetConfigPath_formed parmlibs h helements] at hsuccess
    obtain ⟨config', elements', hconfig', helements', hmgr⟩ := hsuccess rfl
    cases h.symm.trans hconfig'
    rw [helements', withPath_inj h hmgr]
  · intro hnone
    rw [cfgSetConfigPath_illFormed parmlibs h hnone] at herror
    have hmgr := (herror (by decide : ZCFG_BAD_CONFIG_PATH ≠ ZCFG_SUCCESS)).trans
      (withPath_self h).symm
    exact List.append_right_eq_self.mp (withPath_inj h hmgr)

theorem PathMayBeSet.setsConfigPath
    (hset : PathMayBeSet parmlibs config.configPath configPathArg) :
    SetsConfigPath parmlibs mgr configName configPathArg := by
  obtain ⟨hformed, hill⟩ := hset
  cases helements : pathElements parmlibs (counted configPathArg) with
  | some elements =>
    have hrun := cfgSetConfigPath_formed parmlibs h helements
    refine ⟨fun _ => ?_, fun hstatus => absurd (congrArg Prod.fst hrun) hstatus⟩
    exact ⟨config, _, h, hformed elements helements, congrArg Prod.snd hrun⟩
  | none =>
    have hrun := cfgSetConfigPath_illFormed parmlibs h helements
    rw [hill helements, List.append_nil, withPath_self h] at hrun
    refine ⟨fun hstatus => ?_, fun _ => congrArg Prod.snd hrun⟩
    rw [hrun] at hstatus
    exact absurd hstatus (by decide : ZCFG_BAD_CONFIG_PATH ≠ ZCFG_SUCCESS)

end set

/-- Before the argument is read, the path has to be such that adding to it sets it. -/
theorem setsConfigPath_iff (mgr : ConfigManager) (configName configPathArg : CString) :
    SetsConfigPath parmlibs mgr configName configPathArg ↔
      ∀ config, getConfig mgr configName = some config →
        PathMayBeSet parmlibs config.configPath configPathArg := by
  cases hconfig : getConfig mgr configName with
  | none =>
    have hrun : cfgSetConfigPath parmlibs mgr configName configPathArg =
        (ZCFG_UNKNOWN_CONFIG_NAME, mgr) := by
      unfold cfgSetConfigPath
      rw [hconfig]
    constructor
    · intro _ config h
      cases h
    · intro _
      refine ⟨fun hstatus => ?_, fun _ => congrArg Prod.snd hrun⟩
      rw [hrun] at hstatus
      exact absurd hstatus (by decide : ZCFG_UNKNOWN_CONFIG_NAME ≠ ZCFG_SUCCESS)
  | some config =>
    constructor
    · intro hset _ heq
      cases heq
      exact hset.pathMayBeSet parmlibs hconfig
    · intro hall
      exact (hall config rfl).setsConfigPath parmlibs hconfig

def oneFileConfig : CFGConfig where
  configPath := [⟨CONFIG_PATH_OMVS_FILE, ofBytes (ascii "a")⟩]
  parmlibMemberName := none
  configData := none

/-- The argument is `FILE(b)`: the path is `a` and `b` after it. -/
theorem not_setsConfigPath : ¬ SetsConfigPath [] ⟨[(ofBytes (ascii "c"), oneFileConfig)], []⟩
    (ofBytes (ascii "c")) (ofBytes (ascii "FILE(b)")) := by
  intro h
  have helements : pathElements [] (ofBytes (ascii "FILE(b)")) =
      some [⟨CONFIG_PATH_OMVS_FILE, ofBytes (ascii "b")⟩] := by
    unfold pathElements
    rw [segments_of_notMem (by decide) (by decide)]
    rfl
  have hmay := @SetsConfigPath.pathMayBeSet [] _ _ oneFileConfig rfl _ h
  rw [pathMayBeSet_iff [] (by decide), helements] at hmay
  exact List.cons_ne_nil _ _ hmay

end ConfigPath
end ZoweCommon
