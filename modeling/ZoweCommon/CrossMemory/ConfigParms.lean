import Mathlib.Algebra.Group.Nat.Defs
import ZoweCommon.Basic.Ebcdic
import ZoweCommon.Collections.HashtableMap

/-! The configuration parameters of a cross-memory server: how they are set, and how a program in
another address space reads them. -/
namespace ZoweCommon
namespace ConfigParms

open Hashtable (Simulates Policy Call keyCompare keySetoid simulates_create)

def RC_CMS_OK : ℤ := 0
def RC_CMS_SLH_ALLOC_FAILED : ℤ := 73
def RC_CMS_UNKNOWN_PARM_TYPE : ℤ := 74
def RC_CMS_CONFIG_PARM_NAME_TOO_LONG : ℤ := 75
def RC_CMS_CHAR_PARM_TOO_LONG : ℤ := 76
def RC_CMS_CONFIG_PARM_NOT_FOUND : ℤ := 77
def RC_CMS_STDSVC_PARM_NULL : ℤ := 78
def RC_CMS_STDSVC_PARM_BAD_EYECATCHER : ℤ := 79
def RC_CMS_STDSVC_PARM_BAD_VERSION : ℤ := 94
def RC_CMS_CONFIG_VALUE_BUF_TOO_SMALL : ℤ := 95

def CMS_CONFIG_PARM_TYPE_CHAR : Byte := 0
def CMS_CONFIG_PARM_MAX_NAME_LENGTH : ℕ := 72
def CMS_CONFIG_PARM_MAX_VALUE_SIZE : ℕ := 128
def CMS_CONFIG_PARM_EXT_MAX_NAME_LENGTH : ℕ := 1024
def CMS_CONFIG_PARM_EXT_MAX_VALUE_SIZE : ℕ := 2 ^ 31 - 1
def CONFIG_PARM_EXT_SIZE : ℕ := 24
def PARM_HT_BACKBONE_SIZE : ℕ := 257

def CMS_PARM_EYECATCHER : List Byte := Ebcdic.literal "RSCMSCFG"
def CMS_CONFIG_PARM_EXT_EYECATCHER : List Byte := Ebcdic.literal "RSCMSCFX"
def CMS_CONFIG_SERVICE_PARM_EYECATCHER : List Byte := Ebcdic.literal "RSCMSCSY"
def CMS_CONFIG_SERVICE_PARM_VERSION_0 : Byte := 0
def CMS_CONFIG_SERVICE_PARM_VERSION_2 : Byte := 2

structure ConfigParm where
  eyecatcher : List Byte
  valueLength : BitVec 16
  type : Byte
  charValueNullTerm : List Byte

/-- The value is a text in the server, and an address in what the caller is given. -/
structure ConfigParmExt (Value : Type) where
  eyecatcher : List Byte
  version : Byte
  type : Byte
  valueLength : BitVec 32
  value : Value

/-- What a block of version 2 has where one of version 0 has its result. -/
structure ServiceParmExt where
  nameLength : BitVec 32
  valueBufferLength : BitVec 32
  name : BitVec 64
  valueBuffer : BitVec 64
  result : ConfigParmExt (BitVec 64)

structure ConfigServiceParm where
  eyecatcher : List Byte
  nameNullTerm : List Byte
  version : Byte
  result : ConfigParm
  ext : ServiceParmExt
  nameNullTerm_length : nameNullTerm.length = CMS_CONFIG_PARM_MAX_NAME_LENGTH + 1

/-- No address is taken for a hash code: the table has a hash function. -/
instance : Pointer CString where
  intFromPointer _ := 0

def stringHash (s : CString) : BitVec 32 :=
  s.bytes.foldl (fun (hash : BitVec 32) c => ((hash <<< 5) + hash) + c.setWidth 32) 5381 &&&
    0x7FFFFFFF#32

def stringCompare (s1 s2 : CString) : Bool := s1.bytes == s2.bytes

structure Server where
  allocations : ℕ
  configParms : Hashtable Unit CString (ConfigParmExt CString)

/-- What each allocation comes to, by its number and its size in doublewords: storage with something
in it, or none. -/
abbrev Allocator := ℕ → ℕ → Exec (Option (List Byte))

def initServer (safeMalloc : ℕ → ℕ) : Server where
  allocations := 0
  configParms := htCreate safeMalloc PARM_HT_BACKBONE_SIZE (some fun _ => stringHash)
    (some fun _ => stringCompare) false false

section Setting

variable (SLHAlloc : Allocator)

/-- The size is an `int`, also when it is rounded up. -/
def Server.alloc (server : Server) (size : ℕ) : Exec (Option (List Byte) × Server) :=
  if size + 7 < 2 ^ 31 then do
    let storage ← SLHAlloc server.allocations ((size + 7) / 8)
    return (storage, { server with allocations := server.allocations + 1 })
  else throw .undefinedBehaviour

/-- The version is not set. -/
def newParm (storage : List Byte) (type : Byte) (value : CString) : ConfigParmExt CString where
  eyecatcher := CMS_CONFIG_PARM_EXT_EYECATCHER
  version := storage.getD 8 0
  type
  valueLength := BitVec.ofNat 32 value.strlen
  value

def cmsAddConfigParm (server : Server) (name value : CString) (type : Byte) :
    Exec (ℤ × Server) := do
  if name.strlen > CMS_CONFIG_PARM_EXT_MAX_NAME_LENGTH then
    return (RC_CMS_CONFIG_PARM_NAME_TOO_LONG, server)
  else
    match ← server.alloc SLHAlloc (name.strlen + 1) with
    | (none, server) => return (RC_CMS_SLH_ALLOC_FAILED, server)
    | (some _, server) =>
      match ← server.alloc SLHAlloc CONFIG_PARM_EXT_SIZE with
      | (none, server) => return (RC_CMS_SLH_ALLOC_FAILED, server)
      | (some parm, server) =>
        if type ≠ CMS_CONFIG_PARM_TYPE_CHAR then return (RC_CMS_UNKNOWN_PARM_TYPE, server)
        else if value.strlen > CMS_CONFIG_PARM_EXT_MAX_VALUE_SIZE then
          return (RC_CMS_CHAR_PARM_TOO_LONG, server)
        else
          match ← server.alloc SLHAlloc (value.strlen + 1) with
          | (none, server) => return (RC_CMS_SLH_ALLOC_FAILED, server)
          | (some _, server) =>
            let (_, configParms) ← htPut () server.configParms name (some (newParm parm type value))
            return (RC_CMS_OK, { server with configParms })

structure Setting where
  name : CString
  value : CString
  type : Byte

/-- Parameters set one after the other, each with its return code. -/
def addConfigParms : Server → List Setting → Exec (List (Setting × ℤ) × Server)
  | server, [] => return ([], server)
  | server, setting :: settings => do
    let (rc, server) ← cmsAddConfigParm SLHAlloc server setting.name setting.value setting.type
    let (calls, server) ← addConfigParms server settings
    return ((setting, rc) :: calls, server)

end Setting

section Reading

/-- What the service gives back: the block, and the bytes for the buffer it names. -/
structure Reply where
  parm : Option ConfigServiceParm
  value : Option (List Byte)

def Reply.nothing : Reply := ⟨none, none⟩

/-- Bytes at the beginning of a buffer are replaced. -/
def copyInto (buffer source : List Byte) : Exec (List Byte) :=
  if source.length ≤ buffer.length then return source ++ buffer.drop source.length
  else throw .undefinedBehaviour

def setByte (buffer : List Byte) (i : ℕ) (c : Byte) : Exec (List Byte) :=
  if i < buffer.length then return buffer.set i c else throw .undefinedBehaviour

def asSize (n : BitVec 32) : ℕ := (n.signExtend 64).toNat

/-- The sum is one of `int`s. -/
def valueCopyLength (configParm : ConfigParmExt CString) : Exec ℕ :=
  if configParm.type = CMS_CONFIG_PARM_TYPE_CHAR then
    if configParm.valueLength = BitVec.intMax 32 then throw .undefinedBehaviour
    else return asSize (configParm.valueLength + 1)
  else return asSize configParm.valueLength

def valueBytes (configParm : ConfigParmExt CString) (length : ℕ) : Exec (List Byte) :=
  if length ≤ configParm.value.strlen + 1 then return (configParm.value.bytes ++ [0]).take length
  else throw .undefinedBehaviour

def terminated (localParm : ConfigServiceParm) : ConfigServiceParm :=
  { localParm with
    nameNullTerm := localParm.nameNullTerm.set CMS_CONFIG_PARM_MAX_NAME_LENGTH 0
    nameNullTerm_length := by rw [List.length_set, localParm.nameNullTerm_length] }

variable (callerMemory : BitVec 64 → Byte) (uninitialised : ℕ → Byte)

def readCaller (address : BitVec 64) (length : ℕ) : List Byte :=
  (List.range length).map fun i => callerMemory (address + BitVec.ofNat 64 i)

def handleVersion0 (server : Server) (localParm : ConfigServiceParm) : Exec (ℤ × Server × Reply) := do
  let localParm := terminated localParm
  let (configParm, configParms) ← htGet () server.configParms (.ofBytes localParm.nameNullTerm)
  let server := { server with configParms }
  match configParm with
  | none => return (RC_CMS_CONFIG_PARM_NOT_FOUND, server, .nothing)
  | some configParm =>
    let valueCopyLength ← valueCopyLength configParm
    if valueCopyLength > CMS_CONFIG_PARM_MAX_VALUE_SIZE then
      return (RC_CMS_CONFIG_VALUE_BUF_TOO_SMALL, server, .nothing)
    else
      let value ← valueBytes configParm valueCopyLength
      let charValueNullTerm ← copyInto (List.replicate CMS_CONFIG_PARM_MAX_VALUE_SIZE 0) value
      let result : ConfigParm :=
        { eyecatcher := CMS_PARM_EYECATCHER
          valueLength := configParm.valueLength.setWidth 16
          type := configParm.type
          charValueNullTerm }
      return (RC_CMS_OK, server, ⟨some { localParm with result }, none⟩)

def copyName (name : BitVec 64) (nameLength : ℕ) : Exec (List Byte) := do
  let nameLocalBuffer := (List.range (CMS_CONFIG_PARM_EXT_MAX_NAME_LENGTH + 1)).map uninitialised
  let nameLocalBuffer ← copyInto nameLocalBuffer (readCaller callerMemory name nameLength)
  setByte nameLocalBuffer nameLength 0

def handleVersion2 (server : Server) (localParm : ConfigServiceParm) : Exec (ℤ × Server × Reply) := do
  let ext := localParm.ext
  let nameLength := asSize ext.nameLength
  if nameLength > CMS_CONFIG_PARM_EXT_MAX_NAME_LENGTH then
    return (RC_CMS_CONFIG_PARM_NAME_TOO_LONG, server, .nothing)
  else
    let nameLocalBuffer ← copyName callerMemory uninitialised ext.name nameLength
    let (configParm, configParms) ← htGet () server.configParms (.ofBytes nameLocalBuffer)
    let server := { server with configParms }
    match configParm with
    | none => return (RC_CMS_CONFIG_PARM_NOT_FOUND, server, .nothing)
    | some configParm =>
      let valueCopyLength ← valueCopyLength configParm
      let result := { configParm with value := ext.valueBuffer }
      let localParm := { localParm with ext := { ext with result } }
      if valueCopyLength > asSize ext.valueBufferLength then
        return (RC_CMS_CONFIG_VALUE_BUF_TOO_SMALL, server, ⟨some localParm, none⟩)
      else
        let value ← valueBytes configParm valueCopyLength
        return (RC_CMS_OK, server, ⟨some localParm, some value⟩)

def handleConfigService (server : Server) (callerParm : Option ConfigServiceParm) :
    Exec (ℤ × Server × Reply) :=
  match callerParm with
  | none => return (RC_CMS_STDSVC_PARM_NULL, server, .nothing)
  | some localParm =>
    if localParm.eyecatcher ≠ CMS_CONFIG_SERVICE_PARM_EYECATCHER then
      return (RC_CMS_STDSVC_PARM_BAD_EYECATCHER, server, .nothing)
    else if localParm.version ≠ CMS_CONFIG_SERVICE_PARM_VERSION_0 ∧
        localParm.version ≠ CMS_CONFIG_SERVICE_PARM_VERSION_2 then
      return (RC_CMS_STDSVC_PARM_BAD_VERSION, server, .nothing)
    else if localParm.version = CMS_CONFIG_SERVICE_PARM_VERSION_0 then
      handleVersion0 server localParm
    else handleVersion2 callerMemory uninitialised server localParm

end Reading

/-- The value that each name has. -/
abbrev Parms := CString → Option CString

def Parms.add (parms : Parms) (call : Setting × ℤ) : Parms :=
  if call.2 = RC_CMS_OK then Function.update parms call.1.name (some call.1.value) else parms

/-- What calls leave set, by the last one for each name that was successful. -/
def parmsSet (calls : List (Setting × ℤ)) : Parms := calls.foldl Parms.add fun _ => none

section Table

theorem stringCompare_iff {s1 s2 : CString} : stringCompare s1 s2 = true ↔ s1 = s2 := by
  rw [stringCompare, beq_iff_eq]
  exact ⟨CString.ext, congrArg CString.bytes⟩

theorem equivalence_stringCompare :
    Equivalence fun s1 s2 => keyCompare (some stringCompare) s1 s2 = true := by
  simp only [keyCompare, stringCompare_iff]
  exact eq_equivalence

def byText : Setoid CString := keySetoid (some stringCompare) equivalence_stringCompare

theorem byText_iff {s1 s2 : CString} : byText.r s1 s2 ↔ s1 = s2 := stringCompare_iff

/-- No entry of the table is kept or dropped by a rule of its own. -/
def noPolicy : Policy Unit (ConfigParmExt CString) := ⟨none, none, none⟩

/-- A text with its type and its length, which is an `int`. -/
def IsParm (value : CString) (parm : ConfigParmExt CString) : Prop :=
  value.strlen + 1 < 2 ^ 31 ∧ ∃ storage, parm = newParm storage CMS_CONFIG_PARM_TYPE_CHAR value

/-- The table has the parameters and nothing else. -/
def Keeps (configParms : Hashtable Unit CString (ConfigParmExt CString)) (parms : Parms) : Prop :=
  ∃ m : KeyedMap byText (Option (ConfigParmExt CString)),
    Simulates noPolicy byText configParms m ∧
    (∀ name, parms name = none → m.find name = none) ∧
    ∀ name value, parms name = some value →
      ∃ key parm, m.find name = some (key, some parm) ∧ IsParm value parm

variable {configParms : Hashtable Unit CString (ConfigParmExt CString)} {parms : Parms}
  {name value : CString} {parm : ConfigParmExt CString}

theorem keeps_initServer {safeMalloc : ℕ → ℕ} (hd : ∀ i j, i < j →
      safeMalloc i + FixedBlockMgr.extentSize HASHENTRY_SIZE 256 ≤ safeMalloc j ∨
      safeMalloc j + FixedBlockMgr.extentSize HASHENTRY_SIZE 256 ≤ safeMalloc i) :
    Keeps (initServer safeMalloc).configParms fun _ => none := by
  have hsim : Simulates noPolicy byText
      (Hashtable.create safeMalloc PARM_HT_BACKBONE_SIZE (some stringHash) (some stringCompare)
        false false noPolicy) (KeyedMap.empty byText) := by
    apply simulates_create false false noPolicy (by decide) hd equivalence_stringCompare
    intro k l hkl
    rw [stringCompare_iff.mp hkl]
  exact ⟨KeyedMap.empty byText, hsim, fun name _ => KeyedMap.find_empty, fun name value h => nomatch h⟩

/-- A call on the table, in the terms of the map it has. -/
theorem perform_put {m : KeyedMap byText (Option (ConfigParmExt CString))}
    (hsim : Simulates noPolicy byText configParms m) (name : CString) (parm : ConfigParmExt CString) :
    ∃ n configParms', htPut () configParms name (some parm) = .ok (n, configParms') ∧
      Simulates noPolicy byText configParms' (m.put name (some parm)) := by
  obtain ⟨configParms', hrun, hsim'⟩ := hsim.perform () (.put name (some parm))
  have hmeaning : (Call.meaning noPolicy () m (.put name (some parm))).2 = m.put name (some parm) := by
    cases hfind : m.find name <;> simp [Call.meaning, hfind, noPolicy]
  rw [hmeaning] at hsim'
  rw [Hashtable.perform, Exec.bind_eq_ok] at hrun
  obtain ⟨⟨n, ht⟩, hput, hrun⟩ := hrun
  have hht : ht = configParms' := (Prod.mk.inj (Except.ok.inj hrun)).2
  rw [hht] at hput
  exact ⟨n, configParms', hput, hsim'⟩

theorem perform_get {m : KeyedMap byText (Option (ConfigParmExt CString))}
    (hsim : Simulates noPolicy byText configParms m) (name : CString) :
    ∃ configParms', htGet () configParms name = .ok ((m.find name).bind Prod.snd, configParms') ∧
      Simulates noPolicy byText configParms' m := by
  obtain ⟨configParms', hrun, hsim'⟩ := hsim.perform () (.get name)
  have hmeaning : Call.meaning noPolicy () m (.get name) =
      (.value ((m.find name).bind Prod.snd), m) := by
    cases hfind : m.find name <;> simp [Call.meaning, hfind, noPolicy]
  rw [hmeaning] at hrun hsim'
  rw [Hashtable.perform, Exec.bind_eq_ok] at hrun
  obtain ⟨⟨v, ht⟩, hget, hrun⟩ := hrun
  cases hrun
  exact ⟨configParms', hget, hsim'⟩

theorem Keeps.htPut (h : Keeps configParms parms) (hparm : IsParm value parm) :
    ∃ n configParms', htPut () configParms name (some parm) = .ok (n, configParms') ∧
      Keeps configParms' (Function.update parms name (some value)) := by
  obtain ⟨m, hsim, hmissing, hfound⟩ := h
  obtain ⟨n, configParms', hput, hsim'⟩ := perform_put hsim name parm
  refine ⟨n, configParms', hput, m.put name (some parm), hsim', fun other hother => ?_,
    fun other v hother => ?_⟩
  · by_cases hname : name = other
    · rw [hname, Function.update_self] at hother
      exact nomatch hother
    · rw [Function.update_of_ne (Ne.symm hname)] at hother
      rw [KeyedMap.find_put_of_not_rel (fun hrel => hname (byText_iff.mp hrel))]
      exact hmissing other hother
  · by_cases hname : name = other
    · rw [hname, Function.update_self, Option.some_inj] at hother
      rw [← hother, KeyedMap.find_put_of_rel (byText_iff.mpr hname)]
      exact ⟨name, parm, rfl, hparm⟩
    · rw [Function.update_of_ne (Ne.symm hname)] at hother
      rw [KeyedMap.find_put_of_not_rel (fun hrel => hname (byText_iff.mp hrel))]
      exact hfound other v hother

theorem Keeps.length_lt (h : Keeps configParms parms) (hname : parms name = some value) :
    value.strlen + 1 < 2 ^ 31 := by
  obtain ⟨m, -, -, hfound⟩ := h
  obtain ⟨key, parm, -, hparm⟩ := hfound name value hname
  exact hparm.1

theorem Keeps.htGet_missing (h : Keeps configParms parms) (hname : parms name = none) :
    ∃ configParms', htGet () configParms name = .ok (none, configParms') := by
  obtain ⟨m, hsim, hmissing, -⟩ := h
  obtain ⟨configParms', hget, -⟩ := perform_get hsim name
  rw [hmissing name hname] at hget
  exact ⟨configParms', hget⟩

theorem Keeps.htGet_found (h : Keeps configParms parms) (hname : parms name = some value) :
    ∃ parm configParms', htGet () configParms name = .ok (some parm, configParms') ∧
      IsParm value parm := by
  obtain ⟨m, hsim, -, hfound⟩ := h
  obtain ⟨configParms', hget, -⟩ := perform_get hsim name
  obtain ⟨key, parm, hfind, hparm⟩ := hfound name value hname
  rw [hfind] at hget
  exact ⟨parm, configParms', hget, hparm⟩

end Table

section Runs

variable {SLHAlloc : Allocator} {server server' : Server} {parms : Parms}

/-- An allocation leaves the table alone. -/
theorem alloc_ok {size : ℕ} {storage : Option (List Byte)}
    (h : server.alloc SLHAlloc size = .ok (storage, server')) :
    size + 7 < 2 ^ 31 ∧ server'.configParms = server.configParms := by
  unfold Server.alloc at h
  split at h
  next hsize =>
    obtain ⟨_, _, h⟩ := Exec.bind_eq_ok.mp h
    cases h
    exact ⟨hsize, rfl⟩
  next => cases h

/-- A call keeps the table, with one more parameter if it was successful. -/
theorem cmsAddConfigParm_keeps {setting : Setting} {rc : ℤ} (hkeeps : Keeps server.configParms parms)
    (h : cmsAddConfigParm SLHAlloc server setting.name setting.value setting.type =
      .ok (rc, server')) :
    Keeps server'.configParms (parms.add (setting, rc)) := by
  have hfailed : ∀ {code : ℤ} {server₁ : Server}, code ≠ RC_CMS_OK →
      server₁.configParms = server.configParms → (Except.ok (code, server₁) : Exec _) = .ok (rc, server') →
      Keeps server'.configParms (parms.add (setting, rc)) := by
    intro code server₁ hcode hsame heq
    cases heq
    rw [Parms.add, if_neg hcode, hsame]
    exact hkeeps
  unfold cmsAddConfigParm at h
  split at h
  · exact hfailed (by decide) rfl h
  obtain ⟨⟨key, server₁⟩, hkey, h⟩ := Exec.bind_eq_ok.mp h
  obtain ⟨-, hsame₁⟩ := alloc_ok hkey
  cases key with
  | none => exact hfailed (by decide) hsame₁ h
  | some key =>
    obtain ⟨⟨storage, server₂⟩, hstorage, h⟩ := Exec.bind_eq_ok.mp h
    obtain ⟨-, hsame₂⟩ := alloc_ok hstorage
    cases storage with
    | none => exact hfailed (by decide) (hsame₂.trans hsame₁) h
    | some storage =>
      dsimp only at h
      split at h
      next => exact hfailed (by decide) (hsame₂.trans hsame₁) h
      next htype =>
        split at h
        · exact hfailed (by decide) (hsame₂.trans hsame₁) h
        obtain ⟨⟨text, server₃⟩, htext, h⟩ := Exec.bind_eq_ok.mp h
        obtain ⟨hsize, hsame₃⟩ := alloc_ok htext
        have hsame : server₃.configParms = server.configParms :=
          hsame₃.trans (hsame₂.trans hsame₁)
        cases text with
        | none => exact hfailed (by decide) hsame h
        | some text =>
          have hparm : IsParm setting.value (newParm storage setting.type setting.value) :=
            ⟨by omega, storage, by rw [not_not.mp htype]⟩
          obtain ⟨n, configParms', hput, hkept⟩ := @Keeps.htPut _ _ setting.name _ _ hkeeps hparm
          rw [← hsame] at hput
          simp only [hput, Exec.ok_bind] at h
          cases h
          rw [Parms.add, if_pos rfl]
          exact hkept

/-- A text that is not too long is set, if there is storage for it. -/
theorem cmsAddConfigParm_ok {setting : Setting} {storage : List Byte}
    (hkeeps : Keeps server.configParms parms) (halloc : ∀ call size, SLHAlloc call size = .ok (some storage))
    (hname : setting.name.strlen ≤ CMS_CONFIG_PARM_EXT_MAX_NAME_LENGTH)
    (htype : setting.type = CMS_CONFIG_PARM_TYPE_CHAR) (hvalue : setting.value.strlen + 8 < 2 ^ 31) :
    ∃ server', cmsAddConfigParm SLHAlloc server setting.name setting.value setting.type =
      .ok (RC_CMS_OK, server') := by
  have hstored : ∀ (server : Server) {size : ℕ}, size + 7 < 2 ^ 31 → server.alloc SLHAlloc size =
      .ok (some storage, ⟨server.allocations + 1, server.configParms⟩) := by
    intro server size hsize
    rw [Server.alloc, if_pos hsize, halloc]
    rfl
  have hparm : IsParm setting.value (newParm storage setting.type setting.value) :=
    ⟨by omega, storage, by rw [htype]⟩
  obtain ⟨n, configParms', hput, -⟩ := @Keeps.htPut _ _ setting.name _ _ hkeeps hparm
  unfold cmsAddConfigParm
  unfold CMS_CONFIG_PARM_EXT_MAX_NAME_LENGTH at hname ⊢
  have hshort : ¬setting.value.strlen > CMS_CONFIG_PARM_EXT_MAX_VALUE_SIZE := by
    unfold CMS_CONFIG_PARM_EXT_MAX_VALUE_SIZE
    omega
  rw [if_neg (Nat.not_lt.mpr hname), hstored server (by omega)]
  simp only [Exec.ok_bind, hstored _ (show CONFIG_PARM_EXT_SIZE + 7 < 2 ^ 31 by decide), htype, ne_eq,
    not_true_eq_false, if_false, if_neg hshort, hstored _ (show setting.value.strlen + 1 + 7 < 2 ^ 31 by omega)]
  rw [htype] at hput
  rw [hput]
  exact ⟨_, rfl⟩

theorem addConfigParms_keeps {settings : List Setting} {calls : List (Setting × ℤ)}
    (hkeeps : Keeps server.configParms parms)
    (h : addConfigParms SLHAlloc server settings = .ok (calls, server')) :
    Keeps server'.configParms (calls.foldl Parms.add parms) := by
  induction settings generalizing server parms calls with
  | nil =>
    cases h
    exact hkeeps
  | cons setting settings ih =>
    obtain ⟨⟨rc, server₁⟩, hadd, h⟩ := Exec.bind_eq_ok.mp h
    obtain ⟨⟨calls', server₂⟩, hrun, h⟩ := Exec.bind_eq_ok.mp h
    cases h
    have hrest := ih (cmsAddConfigParm_keeps hkeeps hadd) hrun
    exact hrest

end Runs

section Lengths

variable {value : CString} {parm : ConfigParmExt CString}

theorem asSize_of_nonneg {n : BitVec 32} (h : 0 ≤ n.toInt) : (asSize n : ℤ) = n.toInt := by
  have hsame : (n.signExtend 64).toInt = n.toInt := BitVec.toInt_signExtend_of_le (by omega)
  rw [asSize, ← hsame]
  rw [← hsame] at h
  rw [BitVec.toInt_eq_toNat_cond] at h ⊢
  split_ifs at h ⊢ <;> omega

theorem le_asSize_of_neg {n : BitVec 32} (h : n.toInt < 0) : 2 ^ 63 ≤ asSize n := by
  have hsame : (n.signExtend 64).toInt = n.toInt := BitVec.toInt_signExtend_of_le (by omega)
  rw [← hsame, BitVec.toInt_eq_toNat_cond] at h
  rw [asSize]
  split_ifs at h <;> omega

theorem IsParm.length (h : IsParm value parm) : parm.valueLength.toInt = value.strlen := by
  obtain ⟨hlength, storage, rfl⟩ := h
  simp only [newParm]
  rw [BitVec.toInt_eq_toNat_cond, BitVec.toNat_ofNat, Nat.mod_eq_of_lt (by omega)]
  split_ifs <;> omega

theorem IsParm.type_eq (h : IsParm value parm) : parm.type = CMS_CONFIG_PARM_TYPE_CHAR := by
  obtain ⟨-, storage, rfl⟩ := h
  rfl

theorem IsParm.value_eq (h : IsParm value parm) : parm.value = value := by
  obtain ⟨-, storage, rfl⟩ := h
  rfl

theorem IsParm.valueCopyLength_eq (h : IsParm value parm) :
    valueCopyLength parm = .ok (value.strlen + 1) := by
  have hlength := h.1
  have hint := h.length
  have hmax : parm.valueLength ≠ BitVec.intMax 32 := by
    intro heq
    rw [heq] at hint
    have hvalue : (BitVec.intMax 32).toInt = 2 ^ 31 - 1 := by decide
    omega
  have hsum : (parm.valueLength + 1).toInt = value.strlen + 1 := by
    have hone : (1 : BitVec 32).toNat = 1 := rfl
    rw [BitVec.toInt_eq_toNat_cond] at hint
    rw [BitVec.toInt_eq_toNat_cond, BitVec.toNat_add, hone]
    split_ifs at hint ⊢ <;> omega
  have hsize := asSize_of_nonneg (n := parm.valueLength + 1) (by omega)
  rw [valueCopyLength, if_pos h.type_eq, if_neg hmax]
  exact congrArg Except.ok (by omega)

theorem IsParm.valueBytes_eq (h : IsParm value parm) :
    valueBytes parm (value.strlen + 1) = .ok (value.bytes ++ [0]) := by
  rw [valueBytes, h.value_eq, if_pos le_rfl, List.take_of_length_le (by simp [CString.strlen])]
  rfl

end Lengths

section Answers

/-- A name is not longer than the buffer for it, and its length not negative. -/
def ConfigServiceParm.NameAdmissible (parm : ConfigServiceParm) : Prop :=
  parm.version = CMS_CONFIG_SERVICE_PARM_VERSION_0 ∨
    (0 ≤ parm.ext.nameLength.toInt ∧ parm.ext.nameLength.toInt ≤ CMS_CONFIG_PARM_EXT_MAX_NAME_LENGTH)

/-- The name in the block, or the one that it points to, up to a zero. -/
def ConfigServiceParm.requestedName (callerMemory : BitVec 64 → Byte) (parm : ConfigServiceParm) :
    CString :=
  if parm.version = CMS_CONFIG_SERVICE_PARM_VERSION_0 then
    .ofBytes (parm.nameNullTerm.take CMS_CONFIG_PARM_MAX_NAME_LENGTH)
  else .ofBytes (readCaller callerMemory parm.ext.name parm.ext.nameLength.toInt.toNat)

/-- There is room for a value and its terminator in the field, or in the buffer. -/
def ConfigServiceParm.Fits (parm : ConfigServiceParm) (value : CString) : Prop :=
  if parm.version = CMS_CONFIG_SERVICE_PARM_VERSION_0 then
    value.strlen + 1 ≤ CMS_CONFIG_PARM_MAX_VALUE_SIZE
  else (value.strlen + 1 : ℤ) ≤ parm.ext.valueBufferLength.toInt

/-- The value with its length and its type, in the field with zeros behind it or in the buffer. -/
def Reply.Gives (reply : Reply) (version : Byte) (value : CString) : Prop :=
  ∃ parm, reply.parm = some parm ∧
    if version = CMS_CONFIG_SERVICE_PARM_VERSION_0 then
      parm.result.eyecatcher = CMS_PARM_EYECATCHER ∧
      parm.result.valueLength.toNat = value.strlen ∧
      parm.result.type = CMS_CONFIG_PARM_TYPE_CHAR ∧
      parm.result.charValueNullTerm =
        value.bytes ++ List.replicate (CMS_CONFIG_PARM_MAX_VALUE_SIZE - value.strlen) 0
    else
      parm.ext.result.valueLength.toInt = value.strlen ∧
      parm.ext.result.type = CMS_CONFIG_PARM_TYPE_CHAR ∧
      reply.value = some (value.bytes ++ [0])

variable (callerMemory : BitVec 64 → Byte) (uninitialised : ℕ → Byte)

/-- The service answers a request as the parameters are: it succeeds if and only if the one asked for
is there and fits, gives its value then, and never more than the buffer is said to take. -/
def ReadsBack (parms : Parms) (server : Server) (parm : ConfigServiceParm) : Prop :=
  ∃ rc server' reply,
    handleConfigService callerMemory uninitialised server (some parm) = .ok (rc, server', reply) ∧
    (rc = RC_CMS_OK ↔ parm.NameAdmissible ∧
      ∃ value, parms (parm.requestedName callerMemory) = some value ∧ parm.Fits value) ∧
    (rc = RC_CMS_OK → ∃ value, parms (parm.requestedName callerMemory) = some value ∧
      reply.Gives parm.version value) ∧
    ∀ bytes, reply.value = some bytes → (bytes.length : ℤ) ≤ parm.ext.valueBufferLength.toInt

/-- The length of the buffer is negative, and the parameter is there. -/
def NegativeBuffer (parms : Parms) (parm : ConfigServiceParm) : Prop :=
  parm.version = CMS_CONFIG_SERVICE_PARM_VERSION_2 ∧ parm.ext.valueBufferLength.toInt < 0 ∧
    parm.NameAdmissible ∧ (parms (parm.requestedName callerMemory)).isSome = true

variable {callerMemory} {uninitialised} {parms : Parms} {server : Server} {parm : ConfigServiceParm}
  {value : CString}

theorem ofBytes_terminated_name : CString.ofBytes (terminated parm).nameNullTerm =
    .ofBytes (parm.nameNullTerm.take CMS_CONFIG_PARM_MAX_NAME_LENGTH) := by
  have hlength := parm.nameNullTerm_length
  have hset : (terminated parm).nameNullTerm =
      parm.nameNullTerm.take CMS_CONFIG_PARM_MAX_NAME_LENGTH ++
        0 :: parm.nameNullTerm.drop (CMS_CONFIG_PARM_MAX_NAME_LENGTH + 1) :=
    List.set_eq_take_append_cons_drop.trans (if_pos (by omega))
  rw [hset, CString.ofBytes_terminated]

/-- The name is copied, and terminated where the copy ends. -/
theorem copyName_ok {name : BitVec 64} {nameLength : ℕ}
    (h : nameLength ≤ CMS_CONFIG_PARM_EXT_MAX_NAME_LENGTH) :
    ∃ named, copyName callerMemory uninitialised name nameLength = .ok named ∧
      CString.ofBytes named = .ofBytes (readCaller callerMemory name nameLength) := by
  have hsource : (readCaller callerMemory name nameLength).length = nameLength := by
    rw [readCaller, List.length_map, List.length_range]
  unfold copyName
  generalize readCaller callerMemory name nameLength = source at hsource ⊢
  generalize hbuffer : (List.range (CMS_CONFIG_PARM_EXT_MAX_NAME_LENGTH + 1)).map uninitialised = buffer
  have hlength : buffer.length = CMS_CONFIG_PARM_EXT_MAX_NAME_LENGTH + 1 := by
    rw [← hbuffer, List.length_map, List.length_range]
  have hbehind : 0 < (buffer.drop source.length).length := by
    rw [List.length_drop]
    omega
  obtain ⟨c, rest, hrest⟩ := List.exists_cons_of_length_pos hbehind
  have hcopied : copyInto buffer source = .ok (source ++ c :: rest) := by
    rw [copyInto, if_pos (by omega), hrest]
    rfl
  have hset : setByte (source ++ c :: rest) nameLength 0 = .ok (source ++ 0 :: rest) := by
    rw [setByte, if_pos (by simp [hsource]), ← hsource, List.set_append_right _ _ le_rfl,
      Nat.sub_self, List.set_cons_zero]
    rfl
  refine ⟨source ++ 0 :: rest, ?_, CString.ofBytes_terminated source rest⟩
  simp only [hcopied, Exec.ok_bind]
  exact hset

theorem handleVersion0_missing (hkeeps : Keeps server.configParms parms)
    (hname : parms (.ofBytes (parm.nameNullTerm.take CMS_CONFIG_PARM_MAX_NAME_LENGTH)) = none) :
    ∃ server', handleVersion0 server parm =
      .ok (RC_CMS_CONFIG_PARM_NOT_FOUND, server', .nothing) := by
  obtain ⟨configParms, hget⟩ := hkeeps.htGet_missing hname
  rw [handleVersion0, ofBytes_terminated_name, hget]
  exact ⟨_, rfl⟩

theorem handleVersion0_small (hkeeps : Keeps server.configParms parms)
    (hname : parms (.ofBytes (parm.nameNullTerm.take CMS_CONFIG_PARM_MAX_NAME_LENGTH)) = some value)
    (hsize : CMS_CONFIG_PARM_MAX_VALUE_SIZE < value.strlen + 1) :
    ∃ server', handleVersion0 server parm =
      .ok (RC_CMS_CONFIG_VALUE_BUF_TOO_SMALL, server', .nothing) := by
  obtain ⟨configParm, configParms, hget, hparm⟩ := hkeeps.htGet_found hname
  rw [handleVersion0, ofBytes_terminated_name, hget]
  simp only [Exec.ok_bind, hparm.valueCopyLength_eq, if_pos hsize]
  exact ⟨_, rfl⟩

theorem handleVersion0_found (hkeeps : Keeps server.configParms parms)
    (hname : parms (.ofBytes (parm.nameNullTerm.take CMS_CONFIG_PARM_MAX_NAME_LENGTH)) = some value)
    (hsize : value.strlen + 1 ≤ CMS_CONFIG_PARM_MAX_VALUE_SIZE) :
    ∃ server' reply, handleVersion0 server parm = .ok (RC_CMS_OK, server', reply) ∧
      reply.Gives CMS_CONFIG_SERVICE_PARM_VERSION_0 value ∧ reply.value = none := by
  obtain ⟨configParm, configParms, hget, hparm⟩ := hkeeps.htGet_found hname
  have hroom : (value.bytes ++ [0]).length ≤
      (List.replicate CMS_CONFIG_PARM_MAX_VALUE_SIZE (0 : Byte)).length := by
    rw [List.length_append, List.length_replicate]
    exact hsize
  rw [handleVersion0, ofBytes_terminated_name, hget]
  simp only [Exec.ok_bind, hparm.valueCopyLength_eq, if_neg (Nat.not_lt.mpr hsize),
    hparm.valueBytes_eq, copyInto, if_pos hroom]
  refine ⟨_, _, rfl, ⟨_, rfl, ?_⟩, rfl⟩
  rw [if_pos rfl]
  refine ⟨rfl, ?_, hparm.type_eq, ?_⟩
  · have hint := hparm.length
    unfold CMS_CONFIG_PARM_MAX_VALUE_SIZE at hsize
    rw [BitVec.toInt_eq_toNat_cond] at hint
    rw [BitVec.toNat_setWidth]
    split_ifs at hint <;> omega
  · rw [List.drop_replicate, List.append_assoc]
    have hzeros : ([0] : List Byte) ++ List.replicate
        (CMS_CONFIG_PARM_MAX_VALUE_SIZE - (value.bytes ++ [0]).length) 0 =
        List.replicate (CMS_CONFIG_PARM_MAX_VALUE_SIZE - value.strlen) 0 := by
      rw [List.length_append, List.singleton_append, ← List.replicate_succ]
      congr 1
      unfold CString.strlen at hsize ⊢
      simp only [List.length_singleton]
      omega
    rw [hzeros]

theorem handleVersion2_long
    (h : ¬(0 ≤ parm.ext.nameLength.toInt ∧
      parm.ext.nameLength.toInt ≤ CMS_CONFIG_PARM_EXT_MAX_NAME_LENGTH)) :
    handleVersion2 callerMemory uninitialised server parm =
      .ok (RC_CMS_CONFIG_PARM_NAME_TOO_LONG, server, .nothing) := by
  refine if_pos ?_
  unfold CMS_CONFIG_PARM_EXT_MAX_NAME_LENGTH at h ⊢
  by_cases hneg : parm.ext.nameLength.toInt < 0
  · have := le_asSize_of_neg hneg
    omega
  · have := asSize_of_nonneg (not_lt.mp hneg)
    omega

section Admissible

variable (hlow : 0 ≤ parm.ext.nameLength.toInt)
  (hhigh : parm.ext.nameLength.toInt ≤ CMS_CONFIG_PARM_EXT_MAX_NAME_LENGTH)
  (hkeeps : Keeps server.configParms parms)

include hlow hhigh

variable (callerMemory) (uninitialised) in
theorem copyName_admissible : asSize parm.ext.nameLength ≤ CMS_CONFIG_PARM_EXT_MAX_NAME_LENGTH ∧
    ∃ named, copyName callerMemory uninitialised parm.ext.name (asSize parm.ext.nameLength) =
        .ok named ∧
      CString.ofBytes named = .ofBytes (readCaller callerMemory parm.ext.name
        parm.ext.nameLength.toInt.toNat) := by
  have hsize := asSize_of_nonneg hlow
  have hle : asSize parm.ext.nameLength ≤ CMS_CONFIG_PARM_EXT_MAX_NAME_LENGTH := by omega
  have hnat : parm.ext.nameLength.toInt.toNat = asSize parm.ext.nameLength := by omega
  rw [hnat]
  exact ⟨hle, copyName_ok hle⟩

include hkeeps

theorem handleVersion2_missing
    (hname : parms (.ofBytes (readCaller callerMemory parm.ext.name
      parm.ext.nameLength.toInt.toNat)) = none) :
    ∃ server', handleVersion2 callerMemory uninitialised server parm =
      .ok (RC_CMS_CONFIG_PARM_NOT_FOUND, server', .nothing) := by
  obtain ⟨hle, named, hcopied, hsame⟩ := copyName_admissible callerMemory uninitialised hlow hhigh
  obtain ⟨configParms, hget⟩ := hkeeps.htGet_missing hname
  simp only [handleVersion2, if_neg (Nat.not_lt.mpr hle), hcopied, Exec.ok_bind, hsame, hget]
  exact ⟨_, rfl⟩

theorem handleVersion2_small
    (hname : parms (.ofBytes (readCaller callerMemory parm.ext.name
      parm.ext.nameLength.toInt.toNat)) = some value)
    (hsize : asSize parm.ext.valueBufferLength < value.strlen + 1) :
    ∃ server' parm', handleVersion2 callerMemory uninitialised server parm =
      .ok (RC_CMS_CONFIG_VALUE_BUF_TOO_SMALL, server', ⟨some parm', none⟩) := by
  obtain ⟨hle, named, hcopied, hsame⟩ := copyName_admissible callerMemory uninitialised hlow hhigh
  obtain ⟨configParm, configParms, hget, hparm⟩ := hkeeps.htGet_found hname
  simp only [handleVersion2, if_neg (Nat.not_lt.mpr hle), hcopied, Exec.ok_bind, hsame, hget,
    hparm.valueCopyLength_eq, if_pos hsize]
  exact ⟨_, _, rfl⟩

theorem handleVersion2_found
    (hname : parms (.ofBytes (readCaller callerMemory parm.ext.name
      parm.ext.nameLength.toInt.toNat)) = some value)
    (hsize : value.strlen + 1 ≤ asSize parm.ext.valueBufferLength) :
    ∃ server' reply, handleVersion2 callerMemory uninitialised server parm =
        .ok (RC_CMS_OK, server', reply) ∧
      reply.Gives CMS_CONFIG_SERVICE_PARM_VERSION_2 value ∧ reply.value = some (value.bytes ++ [0]) := by
  obtain ⟨hle, named, hcopied, hsame⟩ := copyName_admissible callerMemory uninitialised hlow hhigh
  obtain ⟨configParm, configParms, hget, hparm⟩ := hkeeps.htGet_found hname
  simp only [handleVersion2, if_neg (Nat.not_lt.mpr hle), hcopied, Exec.ok_bind, hsame, hget,
    hparm.valueCopyLength_eq, if_neg (Nat.not_lt.mpr hsize), hparm.valueBytes_eq]
  refine ⟨_, _, rfl, ⟨_, rfl, ?_⟩, rfl⟩
  rw [if_neg (by decide)]
  exact ⟨hparm.length, hparm.type_eq, rfl⟩

end Admissible

theorem readsBack_of_failure {rc : ℤ} {server' : Server} {reply : Reply}
    (hrun : handleConfigService callerMemory uninitialised server (some parm) =
      .ok (rc, server', reply))
    (hrc : rc ≠ RC_CMS_OK) (hvalue : reply.value = none)
    (hnot : parm.NameAdmissible →
      ∀ value, parms (parm.requestedName callerMemory) = some value → ¬parm.Fits value) :
    ReadsBack callerMemory uninitialised parms server parm := by
  refine ⟨rc, server', reply, hrun, ⟨fun h => absurd h hrc, ?_⟩, fun h => absurd h hrc, ?_⟩
  · intro ⟨hadmissible, value, hname, hfits⟩
    exact absurd hfits (hnot hadmissible value hname)
  · intro bytes hbytes
    rw [hvalue] at hbytes
    cases hbytes

theorem readsBack_of_success {server' : Server} {reply : Reply}
    (hrun : handleConfigService callerMemory uninitialised server (some parm) =
      .ok (RC_CMS_OK, server', reply))
    (hadmissible : parm.NameAdmissible)
    (hname : parms (parm.requestedName callerMemory) = some value) (hfits : parm.Fits value)
    (hgives : reply.Gives parm.version value)
    (hvalue : ∀ bytes, reply.value = some bytes →
      (bytes.length : ℤ) ≤ parm.ext.valueBufferLength.toInt) :
    ReadsBack callerMemory uninitialised parms server parm :=
  ⟨_, server', reply, hrun, ⟨fun _ => ⟨hadmissible, value, hname, hfits⟩, fun _ => rfl⟩,
    fun _ => ⟨value, hname, hgives⟩, hvalue⟩

section Requests

variable (heyecatcher : parm.eyecatcher = CMS_CONFIG_SERVICE_PARM_EYECATCHER)
  (hkeeps : Keeps server.configParms parms)

include heyecatcher

theorem handleConfigService_version0 (hversion : parm.version = CMS_CONFIG_SERVICE_PARM_VERSION_0) :
    handleConfigService callerMemory uninitialised server (some parm) =
      handleVersion0 server parm := by
  simp only [handleConfigService, heyecatcher, hversion, ne_eq, not_true_eq_false, false_and, if_false,
    if_true]

theorem handleConfigService_version2 (hversion : parm.version = CMS_CONFIG_SERVICE_PARM_VERSION_2) :
    handleConfigService callerMemory uninitialised server (some parm) =
      handleVersion2 callerMemory uninitialised server parm := by
  have hother : CMS_CONFIG_SERVICE_PARM_VERSION_2 ≠ CMS_CONFIG_SERVICE_PARM_VERSION_0 := by decide
  simp only [handleConfigService, heyecatcher, hversion, ne_eq, not_true_eq_false, and_false, if_false,
    hother]

include hkeeps

/-- The field of a block of version 0 is compared with the size of the value. -/
theorem readsBack_version0 (hversion : parm.version = CMS_CONFIG_SERVICE_PARM_VERSION_0) :
    ReadsBack callerMemory uninitialised parms server parm := by
  have hrun := @handleConfigService_version0 callerMemory uninitialised server _ heyecatcher hversion
  have hrequested : parm.requestedName callerMemory =
      .ofBytes (parm.nameNullTerm.take CMS_CONFIG_PARM_MAX_NAME_LENGTH) := if_pos hversion
  cases hname : parms (parm.requestedName callerMemory) with
  | none =>
    obtain ⟨server', hmissing⟩ := handleVersion0_missing hkeeps (hrequested ▸ hname)
    refine readsBack_of_failure (hrun.trans hmissing) (by decide) rfl fun _ value hvalue => ?_
    rw [hname] at hvalue
    cases hvalue
  | some value =>
    have hfits : parm.Fits value ↔ value.strlen + 1 ≤ CMS_CONFIG_PARM_MAX_VALUE_SIZE := by
      rw [ConfigServiceParm.Fits, if_pos hversion]
    by_cases hsize : value.strlen + 1 ≤ CMS_CONFIG_PARM_MAX_VALUE_SIZE
    · obtain ⟨server', reply, hfound, hgives, hvalue⟩ :=
        handleVersion0_found hkeeps (hrequested ▸ hname) hsize
      refine readsBack_of_success (hrun.trans hfound) (.inl hversion) hname (hfits.mpr hsize)
        (hversion ▸ hgives) fun bytes hbytes => ?_
      rw [hvalue] at hbytes
      cases hbytes
    · obtain ⟨server', hsmall⟩ :=
        handleVersion0_small hkeeps (hrequested ▸ hname) (not_le.mp hsize)
      refine readsBack_of_failure (hrun.trans hsmall) (by decide) rfl fun _ other hother => ?_
      rw [hname] at hother
      cases hother
      rw [hfits]
      exact hsize

/-- A negative length of the buffer is a large size, and every value is found to fit. -/
theorem readsBack_version2_iff (hversion : parm.version = CMS_CONFIG_SERVICE_PARM_VERSION_2) :
    ReadsBack callerMemory uninitialised parms server parm ↔
      ¬NegativeBuffer callerMemory parms parm := by
  have hrun := @handleConfigService_version2 callerMemory uninitialised server _ heyecatcher hversion
  have hother : ¬parm.version = CMS_CONFIG_SERVICE_PARM_VERSION_0 := by
    rw [hversion]
    decide
  have hrequested : parm.requestedName callerMemory =
      .ofBytes (readCaller callerMemory parm.ext.name parm.ext.nameLength.toInt.toNat) :=
    if_neg hother
  have hfits : ∀ value, parm.Fits value ↔
      (value.strlen + 1 : ℤ) ≤ parm.ext.valueBufferLength.toInt := by
    intro value
    rw [ConfigServiceParm.Fits, if_neg hother]
  by_cases hadmissible : parm.NameAdmissible
  swap
  · have hlong := @handleVersion2_long callerMemory uninitialised server parm
      fun hrange => hadmissible (.inr hrange)
    refine ⟨fun _ hnegative => hadmissible hnegative.2.2.1, fun _ => ?_⟩
    exact readsBack_of_failure (hrun.trans hlong) (by decide) rfl fun h => absurd h hadmissible
  have hrange := hadmissible.resolve_left hother
  cases hname : parms (parm.requestedName callerMemory) with
  | none =>
    obtain ⟨server', hmissing⟩ := @handleVersion2_missing callerMemory uninitialised parms server parm
      hrange.1 hrange.2 hkeeps (hrequested ▸ hname)
    refine ⟨fun _ hnegative => ?_, fun _ => ?_⟩
    · rw [NegativeBuffer, hname] at hnegative
      exact absurd hnegative.2.2.2 (by decide)
    · refine readsBack_of_failure (hrun.trans hmissing) (by decide) rfl fun _ value hvalue => ?_
      rw [hname] at hvalue
      cases hvalue
  | some value =>
    have hlength := hkeeps.length_lt hname
    by_cases hnegative : parm.ext.valueBufferLength.toInt < 0
    · -- Everything fits in a buffer whose length is negative.
      have hlarge := le_asSize_of_neg hnegative
      obtain ⟨server', reply, hfound, -⟩ := @handleVersion2_found callerMemory uninitialised parms
        server parm value hrange.1 hrange.2 hkeeps (hrequested ▸ hname) (by omega)
      refine ⟨fun hreads => ?_, fun hnot => absurd ⟨hversion, hnegative, hadmissible, by rw [hname]; rfl⟩ hnot⟩
      obtain ⟨rc, server₁, reply₁, hreads, hok, -⟩ := hreads
      have hsame := Except.ok.inj (hreads.symm.trans (hrun.trans hfound))
      obtain ⟨-, other, -, hroom⟩ := hok.mp (Prod.mk.inj hsame).1
      rw [hfits] at hroom
      omega
    · have hsize := asSize_of_nonneg (not_lt.mp hnegative)
      refine ⟨fun _ h => hnegative h.2.1, fun _ => ?_⟩
      by_cases hroom : value.strlen + 1 ≤ asSize parm.ext.valueBufferLength
      · obtain ⟨server', reply, hfound, hgives, hvalue⟩ := @handleVersion2_found callerMemory
          uninitialised parms server parm value hrange.1 hrange.2 hkeeps (hrequested ▸ hname) hroom
        refine readsBack_of_success (hrun.trans hfound) hadmissible hname ?_ (hversion ▸ hgives)
          fun bytes hbytes => ?_
        · rw [hfits]
          omega
        · rw [hvalue] at hbytes
          cases hbytes
          rw [List.length_append, List.length_singleton]
          unfold CString.strlen at hroom
          omega
      · obtain ⟨server', parm', hsmall⟩ := @handleVersion2_small callerMemory uninitialised parms
          server parm value hrange.1 hrange.2 hkeeps (hrequested ▸ hname) (not_le.mp hroom)
        refine readsBack_of_failure (hrun.trans hsmall) (by decide) rfl fun _ other hother => ?_
        rw [hname] at hother
        cases hother
        rw [hfits]
        omega

end Requests

end Answers

/-- What is set is what is read, unless a buffer is said to have a negative length: it then gets all
of the value. -/
theorem handleConfigService_readsBack_iff {safeMalloc : ℕ → ℕ}
    (hd : ∀ i j, i < j →
      safeMalloc i + FixedBlockMgr.extentSize HASHENTRY_SIZE 256 ≤ safeMalloc j ∨
      safeMalloc j + FixedBlockMgr.extentSize HASHENTRY_SIZE 256 ≤ safeMalloc i)
    {SLHAlloc : Allocator} {settings : List Setting} {calls : List (Setting × ℤ)} {server : Server}
    (hset : addConfigParms SLHAlloc (initServer safeMalloc) settings = .ok (calls, server))
    (callerMemory : BitVec 64 → Byte) (uninitialised : ℕ → Byte) {parm : ConfigServiceParm}
    (heyecatcher : parm.eyecatcher = CMS_CONFIG_SERVICE_PARM_EYECATCHER)
    (hversion : parm.version = CMS_CONFIG_SERVICE_PARM_VERSION_0 ∨
      parm.version = CMS_CONFIG_SERVICE_PARM_VERSION_2) :
    ReadsBack callerMemory uninitialised (parmsSet calls) server parm ↔
      ¬NegativeBuffer callerMemory (parmsSet calls) parm := by
  have hkeeps := addConfigParms_keeps (keeps_initServer hd) hset
  obtain hversion | hversion := hversion
  · refine ⟨fun _ hnegative => ?_, fun _ => readsBack_version0 heyecatcher hkeeps hversion⟩
    exact absurd (hversion.symm.trans hnegative.1) (by decide)
  · exact readsBack_version2_iff heyecatcher hkeeps hversion

/-- A letter with no value. -/
def emptySetting : Setting where
  name := ⟨[0xC1], by decide⟩
  value := ⟨[], by decide⟩
  type := CMS_CONFIG_PARM_TYPE_CHAR

def emptyRequest (valueBufferLength : BitVec 32) : ConfigServiceParm where
  eyecatcher := CMS_CONFIG_SERVICE_PARM_EYECATCHER
  nameNullTerm := List.replicate (CMS_CONFIG_PARM_MAX_NAME_LENGTH + 1) 0
  version := CMS_CONFIG_SERVICE_PARM_VERSION_2
  result := ⟨[], 0, 0, []⟩
  ext := ⟨1, valueBufferLength, 0, 0, ⟨[], 0, 0, 0, 0⟩⟩
  nameNullTerm_length := List.length_replicate

theorem addConfigParms_emptySetting : ∃ server,
    addConfigParms (fun _ _ => .ok (some [])) (initServer fun i => i * 10000) [emptySetting] =
      .ok ([(emptySetting, RC_CMS_OK)], server) := by
  obtain ⟨server, hadd⟩ := @cmsAddConfigParm_ok (fun _ _ => .ok (some [])) _ _ emptySetting []
    (keeps_initServer Hashtable.extents_apart) (fun _ _ => rfl) (by decide) rfl (by decide)
  rw [addConfigParms, hadd]
  exact ⟨server, rfl⟩

theorem handleConfigService_readsBack_iff_empty : ∃ server,
    addConfigParms (fun _ _ => .ok (some [])) (initServer fun i => i * 10000) [emptySetting] =
      .ok ([(emptySetting, RC_CMS_OK)], server) ∧
    (ReadsBack (fun _ => 0xC1) (fun _ => 0) (parmsSet [(emptySetting, RC_CMS_OK)]) server
        (emptyRequest 1) ↔
      ¬NegativeBuffer (fun _ => 0xC1) (parmsSet [(emptySetting, RC_CMS_OK)]) (emptyRequest 1)) := by
  obtain ⟨server, hset⟩ := addConfigParms_emptySetting
  exact ⟨server, hset, handleConfigService_readsBack_iff Hashtable.extents_apart hset (fun _ => 0xC1)
    (fun _ => 0) rfl (.inr rfl)⟩

/-- A buffer of minus one byte gets the terminator. -/
theorem not_handleConfigService_readsBack :
    ¬∀ (safeMalloc : ℕ → ℕ) (SLHAlloc : Allocator) (settings : List Setting)
      (calls : List (Setting × ℤ)) (server : Server) (callerMemory : BitVec 64 → Byte)
      (uninitialised : ℕ → Byte) (parm : ConfigServiceParm),
      (∀ i j, i < j →
        safeMalloc i + FixedBlockMgr.extentSize HASHENTRY_SIZE 256 ≤ safeMalloc j ∨
        safeMalloc j + FixedBlockMgr.extentSize HASHENTRY_SIZE 256 ≤ safeMalloc i) →
      addConfigParms SLHAlloc (initServer safeMalloc) settings = .ok (calls, server) →
      parm.eyecatcher = CMS_CONFIG_SERVICE_PARM_EYECATCHER →
      (parm.version = CMS_CONFIG_SERVICE_PARM_VERSION_0 ∨
        parm.version = CMS_CONFIG_SERVICE_PARM_VERSION_2) →
      ReadsBack callerMemory uninitialised (parmsSet calls) server parm := by
  intro hclaim
  obtain ⟨server, hset⟩ := addConfigParms_emptySetting
  have hreads := hclaim _ _ _ _ server (fun _ => 0xC1) (fun _ => 0) (emptyRequest (-1)) Hashtable.extents_apart
    hset rfl (.inr rfl)
  have hkeeps := addConfigParms_keeps (keeps_initServer Hashtable.extents_apart) hset
  apply (readsBack_version2_iff rfl hkeeps rfl).mp hreads
  exact ⟨rfl, by decide, .inr (by decide), by decide⟩

end ConfigParms
end ZoweCommon
