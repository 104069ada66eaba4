import ZoweCommon.Basic.CLibrary
import ZoweCommon.Basic.Exec
import ZoweCommon.Json.Tree

/-! Plug-ins and their data services, made from the plug-in definitions. -/
namespace ZoweCommon
namespace Plugins

open Json CString

abbrev JsonObject := List (CString × Json)

def jsonObjectGetString (object : JsonObject) (key : String) : Option CString :=
  match lookup object (ofBytes (ascii key)) with
  | some (.scalar (.string s)) => some s
  | _ => none

def jsonObjectGetArray (object : JsonObject) (key : String) : Option (List Json) :=
  match lookup object (ofBytes (ascii key)) with
  | some (.array elements) => some elements
  | _ => none

/-- An element as an object, or a null pointer, of which there are no properties. -/
def asObject : Json → Exec JsonObject
  | .object properties => return properties
  | _ => throw .undefinedBehaviour

def WEB_PLUGIN_TYPE_APPLICATION : ℤ := 0
def WEB_PLUGIN_TYPE_LIBRARY : ℤ := 1
def WEB_PLUGIN_TYPE_WINDOW_MANAGER : ℤ := 2
def WEB_PLUGIN_TYPE_UNKNOWN : ℤ := -1

def LOG_PROD_PLUGINS : BitVec 64 := 0x008F000400000000

def COMMON_PATH_MAX : ℕ := 1024

def tolower (c : Byte) : Byte := if 0x41 ≤ c ∧ c ≤ 0x5A then c + 0x20 else c

def plugInMap : List (String × ℤ) :=
  [("library", WEB_PLUGIN_TYPE_LIBRARY), ("application", WEB_PLUGIN_TYPE_APPLICATION),
    ("library", WEB_PLUGIN_TYPE_LIBRARY), ("windowManager", WEB_PLUGIN_TYPE_WINDOW_MANAGER),
    ("unknown", WEB_PLUGIN_TYPE_UNKNOWN)]

def pluginTypeFromString (pluginType : CString) : ℤ :=
  match plugInMap.find? fun e => pluginType.bytes.map tolower = (ascii e.1).map tolower with
  | some e => e.2
  | none => WEB_PLUGIN_TYPE_UNKNOWN

/-- What is given to all the services. Entry points are addresses. -/
structure Environment where
  namedAPIMap : List (CString × ℕ)
  lookupDLLEntryPoint : CString → CString → Option ℕ

/-- A comparison with a null pointer has no meaning. -/
def lookupAPI (namedAPIMap : List (CString × ℕ)) (entryPointName : Option CString) :
    Exec (Option ℕ) :=
  match namedAPIMap, entryPointName with
  | [], _ => return none
  | _ :: _, none => throw .undefinedBehaviour
  | names, some entryPointName =>
    return (names.find? fun api => api.1 = entryPointName).map Prod.snd

/-- A trailing slash of the location is left out. -/
def dllLocation (pluginLocation libraryName : CString) : CString :=
  let location :=
    if pluginLocation.bytes.getLast? = some 0x2F then pluginLocation.bytes.dropLast
    else pluginLocation.bytes
  ofBytes (CLibrary.snprintf COMMON_PATH_MAX (location ++ ascii "/lib/" ++ libraryName.bytes))

/-- The first that is there, of a library in the plug-in's place and then of one on the path. -/
def loadDll (env : Environment) (serviceJsonObject : JsonObject) (pluginLocation : CString) :
    Option ℕ :=
  let libraryNameWithBits := jsonObjectGetString serviceJsonObject "libraryName64"
  let libraryName := jsonObjectGetString serviceJsonObject "libraryName"
  match jsonObjectGetString serviceJsonObject "initializerName" with
  | none => none
  | some initializerName =>
    let locations := [libraryNameWithBits.map (dllLocation pluginLocation),
      libraryName.map (dllLocation pluginLocation), libraryNameWithBits, libraryName]
    locations.findSome? fun location => location.bind (env.lookupDLLEntryPoint · initializerName)

structure DataService where
  identifier : CString
  name : Option CString
  subURI : Option CString
  pattern : Option CString
  initializer : Option ℕ
  serviceDefinition : JsonObject
  loggingIdentifier : BitVec 64

structure WebPlugin where
  identifier : Option CString
  baseURI : Option CString
  pluginLocation : CString
  pluginType : ℤ
  dataServiceCount : ℕ
  dataServices : List DataService

/-- The identifier of the plug-in, with what there is of the others behind it. -/
def serviceIdentifier (plugin : CString) (subURI name : Option CString) : CString :=
  ofBytes (plugin.bytes ++ subURI.elim [] (fun s => ascii "/" ++ s.bytes) ++
    name.elim [] fun s => ascii "/" ++ s.bytes)

def findInitializer (env : Environment) (pluginLocation : CString) (serviceJsonObject : JsonObject)
    (initializerLookupMethod : CString) : Exec (Option ℕ) :=
  if initializerLookupMethod = ofBytes (ascii "internal") then
    lookupAPI env.namedAPIMap (jsonObjectGetString serviceJsonObject "initializerName")
  else if initializerLookupMethod = ofBytes (ascii "external") then
    return loadDll env serviceJsonObject pluginLocation
  else return none

/-- The number that the logging identifier is made from is read through a pointer. -/
def makeDataService (env : Environment) (plugin : WebPlugin) (serviceJsonObject : JsonObject)
    (subURI : Option CString) (idMultiplier : BitVec 32) : Exec DataService :=
  let name := jsonObjectGetString serviceJsonObject (if subURI.isSome then "subserviceName" else "name")
  match plugin.identifier, jsonObjectGetString serviceJsonObject "initializerLookupMethod" with
  | some pluginIdentifier, some initializerLookupMethod => do
    let initializer ←
      findInitializer env plugin.pluginLocation serviceJsonObject initializerLookupMethod
    return {
      identifier := serviceIdentifier pluginIdentifier subURI name
      name
      subURI
      pattern := jsonObjectGetString serviceJsonObject "pattern"
      initializer
      serviceDefinition := serviceJsonObject
      loggingIdentifier := LOG_PROD_PLUGINS + (0x10000 * idMultiplier).setWidth 64 }
  | _, _ => throw .undefinedBehaviour

def isValidServiceDef (serviceDef : JsonObject) : Bool :=
  match jsonObjectGetString serviceDef "type" with
  | some type =>
    let isImport := type = ofBytes (ascii "import")
    if !isImport && (jsonObjectGetString serviceDef "name").isNone then false
    else if isImport && (jsonObjectGetString serviceDef "sourceName").isNone then false
    else true
  | none => false

def isService (serviceDef : JsonObject) : Bool :=
  jsonObjectGetString serviceDef "type" = some (ofBytes (ascii "service"))

def isGroup (serviceDef : JsonObject) : Bool :=
  jsonObjectGetString serviceDef "type" = some (ofBytes (ascii "group"))

/-- The number of services, unless a definition is not valid. -/
def countServices : List Json → ℕ → Exec (Option ℕ)
  | [], count => return some count
  | dataService :: dataServices, count => do
    let serviceDef ← asObject dataService
    if !isValidServiceDef serviceDef then return none
    else if isService serviceDef then countServices dataServices (count + 1)
    else if isGroup serviceDef then
      match jsonObjectGetArray serviceDef "subservices" with
      | some group => countServices dataServices (count + group.length)
      | none => countServices dataServices count
    else countServices dataServices count

/-- The pointer to the counter, by how far it is behind the counter, and the services. -/
structure Filling where
  idMultiplier : ℕ
  dataServices : List DataService

/-- One more service. `counter` is the counter with what comes behind it in memory. The pointer is
increased, and not what it points to. -/
def addService (env : Environment) (plugin : WebPlugin) (counter : List (BitVec 32))
    (subURI : Option CString) (filling : Filling) (definition : Json) : Exec Filling := do
  let serviceJsonObject ← asObject definition
  match counter[filling.idMultiplier]? with
  | none => throw .undefinedBehaviour
  | some idMultiplier =>
    let service ← makeDataService env plugin serviceJsonObject subURI idMultiplier
    if filling.dataServices.length < plugin.dataServiceCount then
      return ⟨filling.idMultiplier + 1, filling.dataServices ++ [service]⟩
    else throw .undefinedBehaviour

def addEntry (env : Environment) (plugin : WebPlugin) (counter : List (BitVec 32))
    (filling : Filling) (dataService : Json) : Exec Filling := do
  let serviceDef ← asObject dataService
  if (jsonObjectGetString serviceDef "type").isNone || isService serviceDef then
    addService env plugin counter none filling dataService
  else if isGroup serviceDef then
    let subURI := jsonObjectGetString serviceDef "name"
    match jsonObjectGetArray serviceDef "subservices" with
    | some group => group.foldlM (addService env plugin counter subURI) filling
    | none => return filling
  else return filling

/-- The plug-in, unless a definition is not valid, and the counter. -/
def makeWebPlugin2 (env : Environment) (pluginLocation : CString) (pluginDefinition : JsonObject)
    (counter : List (BitVec 32)) : Exec (Option WebPlugin × List (BitVec 32)) := do
  let pluginType := match jsonObjectGetString pluginDefinition "pluginType" with
    | some pluginType => pluginTypeFromString pluginType
    | none => WEB_PLUGIN_TYPE_APPLICATION
  let plugin : WebPlugin := {
    identifier := jsonObjectGetString pluginDefinition "identifier"
    baseURI := jsonObjectGetString pluginDefinition "baseURI"
    pluginLocation
    pluginType
    dataServiceCount := 0
    dataServices := [] }
  match jsonObjectGetArray pluginDefinition "dataServices" with
  | none => return (some plugin, counter)
  | some dataServices =>
    match ← countServices dataServices 0 with
    | none => return (none, counter)
    | some dataServiceCount =>
      let plugin := { plugin with dataServiceCount }
      let filling ← dataServices.foldlM (addEntry env plugin counter) ⟨0, []⟩
      return (some { plugin with dataServices := filling.dataServices }, counter)

def makeWebPlugins (env : Environment) : List (CString × JsonObject) → List (BitVec 32) →
    Exec (List (Option WebPlugin) × List (BitVec 32))
  | [], counter => return ([], counter)
  | (pluginLocation, pluginDefinition) :: calls, counter => do
    let (plugin, counter) ← makeWebPlugin2 env pluginLocation pluginDefinition counter
    let (plugins, counter) ← makeWebPlugins env calls counter
    return (plugin :: plugins, counter)

section Definitions

def entryServices : Json → List (Json × Option CString)
  | .object serviceDef =>
    if isService serviceDef then [(.object serviceDef, none)]
    else if isGroup serviceDef then
      ((jsonObjectGetArray serviceDef "subservices").getD []).map
        (·, jsonObjectGetString serviceDef "name")
    else []
  | _ => []

def entriesOf (pluginDefinition : JsonObject) : List Json :=
  (jsonObjectGetArray pluginDefinition "dataServices").getD []

/-- The services of a plug-in in the order of its definition. -/
def definedServices (pluginDefinition : JsonObject) : List (Json × Option CString) :=
  (entriesOf pluginDefinition).flatMap entryServices

structure ValidDefinition (pluginDefinition : JsonObject) : Prop where
  entries : ∀ e ∈ entriesOf pluginDefinition,
    ∃ serviceDef, e = .object serviceDef ∧ isValidServiceDef serviceDef = true
  lookupMethods : ∀ s ∈ definedServices pluginDefinition,
    ∃ service, s.1 = .object service ∧
      (jsonObjectGetString service "initializerLookupMethod").isSome

def DataService.definedBy (service : DataService) : Json × Option CString :=
  (.object service.serviceDefinition, service.subURI)

def Built (plugin : Option WebPlugin) (pluginDefinition : JsonObject) : Prop :=
  ∃ p, plugin = some p ∧
    p.dataServices.map DataService.definedBy = definedServices pluginDefinition ∧
    p.dataServiceCount = (definedServices pluginDefinition).length

def total (calls : List (CString × JsonObject)) : ℕ :=
  (calls.flatMap fun call => definedServices call.2).length

/-- The calls for all the plug-ins, with a counter that nothing is known to be behind of. -/
def RunExact (env : Environment) (calls : List (CString × JsonObject)) (start : BitVec 32) : Prop :=
  ∃ plugins counter, makeWebPlugins env calls [start] = .ok (plugins, counter) ∧
    List.Forall₂ (fun plugin call => Built plugin call.2) plugins calls ∧
    counter = [start + BitVec.ofNat 32 (total calls)] ∧
    (plugins.flatMap fun plugin =>
      (plugin.elim [] WebPlugin.dataServices).map DataService.loggingIdentifier).Nodup

variable {env : Environment} {plugin : WebPlugin} {counter counter' : List (BitVec 32)}

theorem asObject_eq_ok {json : Json} {object : JsonObject} (h : asObject json = .ok object) :
    json = .object object := by
  cases json with
  | object properties =>
    cases h
    rfl
  | scalar s => cases h
  | array es => cases h

theorem makeDataService_definedBy {object : JsonObject} {subURI : Option CString}
    {idMultiplier : BitVec 32} {service : DataService}
    (h : makeDataService env plugin object subURI idMultiplier = .ok service) :
    service.definedBy = (.object object, subURI) := by
  unfold makeDataService at h
  dsimp only at h
  split at h
  · rw [Exec.bind_eq_ok] at h
    obtain ⟨initializer, -, h⟩ := h
    cases h
    rfl
  · cases h

theorem addService_definedBy {subURI : Option CString} {filling filling' : Filling}
    {definition : Json}
    (h : addService env plugin counter subURI filling definition = .ok filling') :
    filling'.dataServices.map DataService.definedBy =
      filling.dataServices.map DataService.definedBy ++ [(definition, subURI)] := by
  rw [addService, Exec.bind_eq_ok] at h
  obtain ⟨object, hobject, h⟩ := h
  split at h
  · cases h
  · rw [Exec.bind_eq_ok] at h
    obtain ⟨service, hservice, h⟩ := h
    split_ifs at h
    cases h
    rw [List.map_append, List.map_singleton, makeDataService_definedBy hservice,
      asObject_eq_ok hobject]

theorem addServices_definedBy {subURI : Option CString} (group : List Json) :
    ∀ {filling filling' : Filling},
      group.foldlM (addService env plugin counter subURI) filling = .ok filling' →
      filling'.dataServices.map DataService.definedBy =
        filling.dataServices.map DataService.definedBy ++ group.map (·, subURI) := by
  induction group with
  | nil =>
    intro filling filling' h
    cases h
    rw [List.map_nil, List.append_nil]
  | cons definition group ih =>
    intro filling filling' h
    rw [List.foldlM_cons, Exec.bind_eq_ok] at h
    obtain ⟨filling₁, hservice, h⟩ := h
    rw [ih h, addService_definedBy hservice, List.append_assoc]
    rfl

theorem entryServices_object (serviceDef : JsonObject) : entryServices (.object serviceDef) =
    if isService serviceDef then [(.object serviceDef, none)]
    else if isGroup serviceDef then
      ((jsonObjectGetArray serviceDef "subservices").getD []).map
        (·, jsonObjectGetString serviceDef "name")
    else [] := rfl

theorem type_isSome {serviceDef : JsonObject} (h : isValidServiceDef serviceDef = true) :
    (jsonObjectGetString serviceDef "type").isSome := by
  unfold isValidServiceDef at h
  cases htype : jsonObjectGetString serviceDef "type" with
  | none =>
    rw [htype] at h
    cases h
  | some type => rfl

theorem addEntry_definedBy {serviceDef : JsonObject} {filling filling' : Filling}
    (hvalid : isValidServiceDef serviceDef = true)
    (h : addEntry env plugin counter filling (.object serviceDef) = .ok filling') :
    filling'.dataServices.map DataService.definedBy =
      filling.dataServices.map DataService.definedBy ++ entryServices (.object serviceDef) := by
  have htype : (jsonObjectGetString serviceDef "type").isNone = false := by
    rw [Option.isNone_eq_false_iff]
    exact type_isSome hvalid
  have hobject : asObject (.object serviceDef) = .ok serviceDef := rfl
  rw [addEntry, hobject, Exec.ok_bind, htype, Bool.false_or] at h
  rw [entryServices_object]
  by_cases hservice : isService serviceDef = true
  · rw [if_pos hservice] at h ⊢
    exact addService_definedBy h
  · rw [if_neg hservice] at h ⊢
    by_cases hgroup : isGroup serviceDef = true
    · rw [if_pos hgroup] at h ⊢
      cases harray : jsonObjectGetArray serviceDef "subservices" with
      | none =>
        simp only [harray] at h
        cases h
        simp
      | some group =>
        simp only [harray] at h
        exact addServices_definedBy group h
    · rw [if_neg hgroup] at h ⊢
      cases h
      rw [List.append_nil]

theorem addEntries_definedBy (dataServices : List Json) :
    (∀ e ∈ dataServices, ∃ d, e = .object d ∧ isValidServiceDef d = true) →
    ∀ {filling filling' : Filling},
      dataServices.foldlM (addEntry env plugin counter) filling = .ok filling' →
      filling'.dataServices.map DataService.definedBy =
        filling.dataServices.map DataService.definedBy ++ dataServices.flatMap entryServices := by
  induction dataServices with
  | nil =>
    intro _ filling filling' h
    cases h
    rw [List.flatMap_nil, List.append_nil]
  | cons e dataServices ih =>
    intro hvalid filling filling' h
    rw [List.foldlM_cons, Exec.bind_eq_ok] at h
    obtain ⟨filling₁, hentry, h⟩ := h
    obtain ⟨d, rfl, hd⟩ := hvalid e List.mem_cons_self
    rw [ih (fun e he => hvalid e (List.mem_cons_of_mem _ he)) h, addEntry_definedBy hd hentry,
      List.append_assoc, List.flatMap_cons]

theorem countServices_eq (dataServices : List Json) : ∀ (count : ℕ),
    (∀ e ∈ dataServices, ∃ d, e = .object d ∧ isValidServiceDef d = true) →
    countServices dataServices count =
      .ok (some (count + (dataServices.flatMap entryServices).length)) := by
  induction dataServices with
  | nil =>
    intro count _
    rfl
  | cons e dataServices ih =>
    intro count hvalid
    obtain ⟨d, rfl, hd⟩ := hvalid e List.mem_cons_self
    have hrest := fun count => ih count fun e he => hvalid e (List.mem_cons_of_mem _ he)
    have hobject : asObject (.object d) = .ok d := rfl
    rw [countServices, hobject, Exec.ok_bind, hd, List.flatMap_cons, List.length_append,
      entryServices_object, Bool.not_true, if_neg Bool.false_ne_true]
    by_cases hservice : isService d = true
    · rw [if_pos hservice, if_pos hservice, hrest, List.length_singleton, Nat.add_assoc]
    · rw [if_neg hservice, if_neg hservice]
      by_cases hgroup : isGroup d = true
      · rw [if_pos hgroup, if_pos hgroup, List.length_map, ← Nat.add_assoc]
        cases jsonObjectGetArray d "subservices" with
        | none => exact hrest count
        | some group => exact hrest (count + group.length)
      · rw [if_neg hgroup, if_neg hgroup, hrest, List.length_nil, Nat.zero_add]

theorem countServices_valid (dataServices : List Json) : ∀ {count n : ℕ},
    countServices dataServices count = .ok (some n) →
    ∀ e ∈ dataServices, ∃ d, e = .object d ∧ isValidServiceDef d = true := by
  induction dataServices with
  | nil =>
    intro count n _ e he
    cases he
  | cons e dataServices ih =>
    intro count n h
    rw [countServices, Exec.bind_eq_ok] at h
    obtain ⟨d, hobject, h⟩ := h
    cases hvalid : isValidServiceDef d with
    | false =>
      rw [hvalid] at h
      cases h
    | true =>
      have hrest : ∀ e ∈ dataServices, ∃ d, e = .object d ∧ isValidServiceDef d = true := by
        rw [hvalid, Bool.not_true, if_neg Bool.false_ne_true] at h
        split at h
        · exact ih h
        · split at h
          · split at h
            · exact ih h
            · exact ih h
          · exact ih h
      exact List.forall_mem_cons.mpr ⟨⟨d, asObject_eq_ok hobject, hvalid⟩, hrest⟩

/-- A plug-in that is returned has the services of its definition, and as many as were counted. -/
theorem makeWebPlugin2_built {pluginLocation : CString} {pluginDefinition : JsonObject}
    {p : WebPlugin}
    (h : makeWebPlugin2 env pluginLocation pluginDefinition counter = .ok (some p, counter')) :
    Built (some p) pluginDefinition := by
  unfold makeWebPlugin2 at h
  dsimp only at h
  refine ⟨p, rfl, ?_⟩
  unfold definedServices entriesOf
  cases harray : jsonObjectGetArray pluginDefinition "dataServices" with
  | none =>
    rw [harray] at h
    cases h
    exact ⟨rfl, rfl⟩
  | some dataServices =>
    rw [harray] at h
    dsimp only at h
    rw [Exec.bind_eq_ok] at h
    obtain ⟨result, hcount, h⟩ := h
    cases result with
    | none => cases h
    | some dataServiceCount =>
      dsimp only at h
      rw [Exec.bind_eq_ok] at h
      obtain ⟨filling, hfill, h⟩ := h
      cases h
      have hvalid := countServices_valid dataServices hcount
      rw [countServices_eq dataServices 0 hvalid, Nat.zero_add] at hcount
      cases hcount
      exact ⟨addEntries_definedBy dataServices hvalid hfill, rfl⟩

/-- Nothing is ever written to the counter. -/
theorem makeWebPlugin2_counter {pluginLocation : CString} {pluginDefinition : JsonObject}
    {result : Option WebPlugin}
    (h : makeWebPlugin2 env pluginLocation pluginDefinition counter = .ok (result, counter')) :
    counter' = counter := by
  unfold makeWebPlugin2 at h
  dsimp only at h
  split at h
  · cases h
    rfl
  · rw [Exec.bind_eq_ok] at h
    obtain ⟨count, -, h⟩ := h
    cases count with
    | none =>
      cases h
      rfl
    | some count =>
      dsimp only at h
      rw [Exec.bind_eq_ok] at h
      obtain ⟨filling, -, h⟩ := h
      cases h
      rfl

theorem makeWebPlugins_counter (calls : List (CString × JsonObject)) :
    ∀ {counter counter' : List (BitVec 32)} {plugins : List (Option WebPlugin)},
      makeWebPlugins env calls counter = .ok (plugins, counter') → counter' = counter := by
  induction calls with
  | nil =>
    intro counter counter' plugins h
    cases h
    rfl
  | cons call calls ih =>
    intro counter counter' plugins h
    obtain ⟨pluginLocation, pluginDefinition⟩ := call
    rw [makeWebPlugins, Exec.bind_eq_ok] at h
    obtain ⟨⟨plugin, counter₁⟩, hplugin, h⟩ := h
    dsimp only at h
    rw [Exec.bind_eq_ok] at h
    obtain ⟨⟨plugins, counter₂⟩, hrest, h⟩ := h
    cases h
    rw [ih hrest, makeWebPlugin2_counter hplugin]

theorem makeWebPlugin2_noServices {pluginLocation : CString} {pluginDefinition : JsonObject}
    (hvalid : ValidDefinition pluginDefinition) (hnone : definedServices pluginDefinition = []) :
    ∃ p, makeWebPlugin2 env pluginLocation pluginDefinition counter = .ok (some p, counter) ∧
      p.dataServices = [] := by
  have hentries := hvalid.entries
  unfold definedServices entriesOf at hnone
  unfold entriesOf at hentries
  unfold makeWebPlugin2
  cases harray : jsonObjectGetArray pluginDefinition "dataServices" with
  | none => exact ⟨_, rfl, rfl⟩
  | some dataServices =>
    rw [harray, Option.getD_some] at hnone hentries
    dsimp only
    rw [countServices_eq dataServices 0 hentries, Exec.ok_bind]
    dsimp only
    have hfill : ∀ plugin : WebPlugin, dataServices.foldlM (addEntry env plugin counter) ⟨0, []⟩ =
        .ok ⟨0, []⟩ := by
      intro plugin
      clear harray
      induction dataServices with
      | nil => rfl
      | cons e dataServices ih =>
        rw [List.flatMap_cons, List.append_eq_nil_iff] at hnone
        obtain ⟨d, rfl, hd⟩ := hentries e List.mem_cons_self
        have hempty := hnone.1
        have htype : (jsonObjectGetString d "type").isNone = false := by
          rw [Option.isNone_eq_false_iff]
          exact type_isSome hd
        have hobject : asObject (.object d) = .ok d := rfl
        have hentry : addEntry env plugin counter ⟨0, []⟩ (.object d) = .ok ⟨0, []⟩ := by
          rw [entryServices_object] at hempty
          rw [addEntry, hobject, Exec.ok_bind, htype, Bool.false_or]
          split_ifs at hempty with hservice hgroup
          · rw [if_neg hservice, if_pos hgroup]
            rw [List.map_eq_nil_iff] at hempty
            cases hgroups : jsonObjectGetArray d "subservices" with
            | none => rfl
            | some group =>
              rw [hgroups, Option.getD_some] at hempty
              rw [hempty]
              rfl
          · rw [if_neg hservice, if_neg hgroup]
            rfl
        rw [List.foldlM_cons, hentry, Exec.ok_bind]
        exact ih (fun e he => hentries e (List.mem_cons_of_mem _ he)) hnone.2
    rw [hfill, Exec.ok_bind]
    exact ⟨_, rfl, rfl⟩

theorem runExact_of_noServices {calls : List (CString × JsonObject)} (start : BitVec 32)
    (hvalid : ∀ call ∈ calls, ValidDefinition call.2)
    (hnone : ∀ call ∈ calls, definedServices call.2 = []) : RunExact env calls start := by
  have htotal : total calls = 0 := by
    unfold total
    rw [List.flatMap_eq_nil_iff.mpr hnone]
    rfl
  unfold RunExact
  rw [htotal, BitVec.add_zero]
  clear htotal
  induction calls with
  | nil => exact ⟨[], [start], rfl, .nil, rfl, List.nodup_nil⟩
  | cons call calls ih =>
    obtain ⟨pluginLocation, pluginDefinition⟩ := call
    obtain ⟨p, hp, hservices⟩ := @makeWebPlugin2_noServices env [start] pluginLocation _
      (hvalid _ List.mem_cons_self) (hnone _ List.mem_cons_self)
    obtain ⟨plugins, counter, hrun, hbuilt, rfl, hnodup⟩ :=
      ih (fun call hcall => hvalid call (List.mem_cons_of_mem _ hcall))
        fun call hcall => hnone call (List.mem_cons_of_mem _ hcall)
    refine ⟨some p :: plugins, [start], ?_, .cons (makeWebPlugin2_built hp) hbuilt, rfl, ?_⟩
    · rw [makeWebPlugins, hp, Exec.ok_bind]
      dsimp only
      rw [hrun]
      rfl
    · rw [List.flatMap_cons, Option.elim_some, hservices]
      exact hnodup

/-- A run that is exact has added nothing to the counter. -/
theorem noServices_of_runExact {calls : List (CString × JsonObject)} {start : BitVec 32}
    (hroom : start.toNat + total calls < 65536) (h : RunExact env calls start) :
    ∀ call ∈ calls, definedServices call.2 = [] := by
  obtain ⟨plugins, counter, hrun, -, hcounter, -⟩ := h
  have hsame := makeWebPlugins_counter calls hrun
  rw [hcounter, List.singleton_inj] at hsame
  have htotal : total calls = 0 := by
    have hnat := congrArg BitVec.toNat hsame
    rw [BitVec.toNat_add, BitVec.toNat_ofNat] at hnat
    omega
  have hnil := List.eq_nil_of_length_eq_zero htotal
  exact List.flatMap_eq_nil_iff.mp hnil

/-- The plug-ins get their services and the services their own identifiers: that is so when there
are no services. -/
theorem runExact_iff {calls : List (CString × JsonObject)} {start : BitVec 32}
    (hvalid : ∀ call ∈ calls, ValidDefinition call.2)
    (hroom : start.toNat + total calls < 65536) :
    RunExact env calls start ↔ ∀ call ∈ calls, definedServices call.2 = [] :=
  ⟨noServices_of_runExact hroom, runExact_of_noServices start hvalid⟩

def pingService : JsonObject :=
  [(ofBytes (ascii "type"), .scalar (.string (ofBytes (ascii "service")))),
    (ofBytes (ascii "name"), .scalar (.string (ofBytes (ascii "ping")))),
    (ofBytes (ascii "initializerLookupMethod"), .scalar (.string (ofBytes (ascii "internal"))))]

def pingPlugin : JsonObject :=
  [(ofBytes (ascii "identifier"), .scalar (.string (ofBytes (ascii "org.zowe.ping")))),
    (ofBytes (ascii "dataServices"), .array [.object pingService])]

theorem pingPlugin_services : definedServices pingPlugin = [(.object pingService, none)] := rfl

theorem pingPlugin_valid : ValidDefinition pingPlugin := by
  constructor
  · intro e he
    rw [show entriesOf pingPlugin = [.object pingService] from rfl, List.mem_singleton] at he
    exact ⟨pingService, he, by decide⟩
  · intro s hs
    rw [pingPlugin_services, List.mem_singleton] at hs
    exact ⟨pingService, by rw [hs], by decide⟩

theorem runExact_iff_ping : RunExact ⟨[], fun _ _ => none⟩ [(ofBytes [], pingPlugin)] 1 ↔
    ∀ call ∈ [(ofBytes [], pingPlugin)], definedServices call.2 = [] := by
  refine runExact_iff (fun call hcall => ?_) (by decide)
  rw [List.mem_singleton.mp hcall]
  exact pingPlugin_valid

/-- One service is enough: the counter is what it was. -/
theorem not_runExact :
    ¬∀ (env : Environment) (calls : List (CString × JsonObject)) (start : BitVec 32),
      (∀ call ∈ calls, ValidDefinition call.2) → start.toNat + total calls < 65536 →
      RunExact env calls start := by
  intro hclaim
  have hrun := hclaim ⟨[], fun _ _ => none⟩ [(ofBytes [], pingPlugin)] 1 (fun call hcall => by
    rw [List.mem_singleton.mp hcall]
    exact pingPlugin_valid) (by decide)
  have hnone := noServices_of_runExact (by decide) hrun (ofBytes [], pingPlugin) List.mem_cons_self
  rw [pingPlugin_services] at hnone
  cases hnone

end Definitions

end Plugins
end ZoweCommon
