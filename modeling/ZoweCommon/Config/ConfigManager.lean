import ZoweCommon.Json.Merge
import ZoweCommon.Yaml.Reader

/-! The configuration manager, as far as it loads what is on a configuration path. -/
namespace ZoweCommon

open CLibrary CString

def ZCFG_SUCCESS : ℕ := 0
def ZCFG_MISSING_CONFIG_SOURCE : ℕ := 7

def CONFIG_PATH_OMVS_FILE : BitVec 32 := 0x0001
def CONFIG_PATH_MVS_PARMLIB : BitVec 32 := 0x0008
def CONFIG_PATH_WAS_EXPANDED : BitVec 32 := 0x0100

def MAX_PDS_NAME : ℕ := 1000

def USS_MAX_PATH_LENGTH : ℕ := 1023

structure ConfigPathElement where
  flags : BitVec 32
  data : CString

/-- The configuration data is an address, or a null pointer. -/
structure CFGConfig where
  configPath : List ConfigPathElement
  parmlibMemberName : Option CString
  configData : Option ℕ

/-- What the operating system and the YAML library answer. A file is what can be read from it. -/
structure Environment where
  realpath : CString → Option CString
  fopen : CString → Option (List Byte)
  yaml_parser_load : List Byte → Option YamlDocument

/-- The document, or a null pointer, and whether the file was missing. -/
def readYAML2 (env : Environment) (filename : CString) : Option YamlDocument × Bool :=
  match env.fopen filename with
  | none => (none, true)
  | some file =>
    match env.yaml_parser_load file with
    | none => (none, false)
    | some document =>
      match yaml_document_get_root_node document with
      | none => (none, false)
      | some _ => (some document, false)

/-- The tree, or a null pointer, in the heap of the configuration manager. -/
def readYamlIntoJson (env : Environment) (fuel : ℕ) (slh : List JsonNode) (filename : CString)
    (allowMissingFile : Bool) : Exec (Option ℕ × List JsonNode) :=
  match readYAML2 env filename with
  | (some doc, _) => yaml2JSON fuel slh doc
  | (none, wasMissing) =>
    if allowMissingFile && wasMissing then return (none, slh)
    else
      -- here, a message is written
      return (none, slh)

/-- A path that is longer than the buffer has no meaning. -/
def getAbsolutePathOrKeepRelativePath (env : Environment) (filename : CString) : Exec CString :=
  let fileOrPath := match env.realpath filename with
    | some path => path
    | none => filename
  if fileOrPath.strlen ≤ USS_MAX_PATH_LENGTH then return fileOrPath else throw .undefinedBehaviour

/-- `//'%s(%s)'` -/
def pdsMemberSpec (data parmlibMemberName : CString) : CString :=
  ofBytes (snprintf MAX_PDS_NAME
    (ascii "//'" ++ data.bytes ++ ascii "(" ++ parmlibMemberName.bytes ++ ascii ")'"))

/-- The tree, or a null pointer, and whether that is allowed. There is no printing of a name that
was not set. -/
def readJson (env : Environment) (fuel : ℕ) (slh : List JsonNode) (config : CFGConfig)
    (pathElement : ConfigPathElement) : Exec (Option ℕ × Bool × List JsonNode) := do
  if pathElement.flags &&& CONFIG_PATH_OMVS_FILE ≠ 0 then
    let absolutePath ← getAbsolutePathOrKeepRelativePath env pathElement.data
    let (json, slh) ← readYamlIntoJson env fuel slh absolutePath false
    return (json, false, slh)
  else if pathElement.flags &&& CONFIG_PATH_MVS_PARMLIB ≠ 0 then
    match config.parmlibMemberName with
    | none => throw .undefinedBehaviour
    | some parmlibMemberName =>
      let nullAllowed := pathElement.flags &&& CONFIG_PATH_WAS_EXPANDED ≠ 0
      let (json, slh) ← readYamlIntoJson env fuel slh
        (pdsMemberSpec pathElement.data parmlibMemberName) nullAllowed
      return (json, nullAllowed, slh)
  else return (none, false, slh)

/-- The status, the configuration and its heap. `jsonMerge` reads the type of its base, also
where that is a null pointer. -/
def overloadConfiguration (env : Environment) (arrayMergePolicy : BitVec 32) (fuel : ℕ) :
    List JsonNode → CFGConfig → ConfigPathElement → List ConfigPathElement →
    Exec (ℕ × CFGConfig × List JsonNode)
  | slh, config, pathElement, [] => do
    let (json, dontCare, slh) ← readJson env fuel slh config pathElement
    let config := { config with configData := json }
    if json = none && !dontCare then return (ZCFG_MISSING_CONFIG_SOURCE, config, slh)
    return (0, config, slh)
  | slh, config, pathElement, next :: pathTail => do
    let (overlay, nullAllowed, slh) ← readJson env fuel slh config pathElement
    if overlay = none && !nullAllowed then return (ZCFG_MISSING_CONFIG_SOURCE, config, slh)
    let (rhsStatus, config, slh) ←
      overloadConfiguration env arrayMergePolicy fuel slh config next pathTail
    if rhsStatus ≠ 0 then return (rhsStatus, config, slh)
    match overlay with
    | none => return (0, config, slh)
    | some overlay =>
      match config.configData with
      | none => throw .undefinedBehaviour
      | some base =>
        let (merged, mergeStatus, slh) ← jsonMerge arrayMergePolicy fuel slh overlay base
        return (mergeStatus, { config with configData := merged }, slh)

end ZoweCommon
