import Mathlib.Algebra.Group.Nat.Defs
import ZoweCommon.Basic.Ebcdic
import Mathlib.Logic.Function.Basic

/-! The services of a cross-memory server: how they are registered, where their code is, and
which of them a program call reaches. -/
namespace ZoweCommon
namespace CrossMemoryServer

def RC_CMS_OK : ℤ := 0
def RC_CMS_PARM_BAD_EYECATCHER : ℤ := 10
def RC_CMS_FUNCTION_ID_OUT_OF_RANGE : ℤ := 11
def RC_CMS_SERVER_NULL : ℤ := 14
def RC_CMS_FUNCTION_NULL : ℤ := 16
def RC_CMS_PERMISSION_DENIED : ℤ := 33
def RC_CMS_PC_SERVICE_ABEND_DETECTED : ℤ := 36
def RC_CMS_PC_RECOVERY_ENV_FAILED : ℤ := 37
def RC_CMS_SERVICE_NOT_INITIALIZED : ℤ := 46
def RC_CMS_SERVICE_NOT_RELOCATABLE : ℤ := 50
def RC_CMS_IMPROPER_SERVICE_AS : ℤ := 54
def RC_CMS_USER_PARM_NULL : ℤ := 62
def RC_CMS_WRONG_CLIENT_VERSION : ℤ := 65
def RC_CMS_SERVICE_ENTRY_OCCUPIED : ℤ := 85

def CROSS_MEMORY_SERVER_MIN_SERVICE_ID : ℤ := 10
def CROSS_MEMORY_SERVER_MAX_SERVICE_ID : ℤ := 127
def CROSS_MEMORY_SERVER_VERSION : BitVec 32 := 2

def CROSS_MEMORY_SERVICE_FLAG_INITIALIZED : BitVec 32 := 1
def CROSS_MEMORY_SERVICE_FLAG_SPACE_SWITCH : BitVec 32 := 2
def CROSS_MEMORY_SERVICE_FLAG_LPA : BitVec 32 := 4

def CMS_SERVICE_FLAG_SPACE_SWITCH : BitVec 32 := 1
def CMS_SERVICE_FLAG_RELOCATE_TO_COMMON : BitVec 32 := 2
def CMS_SERVICE_FLAG_CODE_IN_COMMON : BitVec 32 := 4

def CMS_PARMLIST_EYECATCHER : List Byte := Ebcdic.literal "RSCMSPRM"
def CMS_PARMLIST_FLAG_NO_SAF_CHECK : BitVec 16 := 1

def RC_RCV_OK : ℤ := 0
def RC_RCV_ABENDED : ℤ := 100

structure CrossMemoryService where
  function : BitVec 32
  flags : BitVec 32
  serviceData : BitVec 64
  deriving DecidableEq

/-- The entries by the ids of the services, from 0 to 127. -/
abbrev ServiceTable := ℕ → CrossMemoryService

/-- The module of a server and its copy in common storage, both of which are below the bar. -/
structure ServerModule where
  moduleAddressLocal : BitVec 32
  moduleAddressLPA : BitVec 32
  moduleSize : BitVec 32
  moduleAddressLPA_ne_zero : moduleAddressLPA ≠ 0
  local_below : moduleAddressLocal.toNat + moduleSize.toNat < 2 ^ 31
  lpa_below : moduleAddressLPA.toNat + moduleSize.toNat < 2 ^ 31

/-- What a service is registered with. -/
structure Registration where
  id : ℤ
  serviceFunction : BitVec 32
  serviceData : BitVec 64
  flags : BitVec 32
  serviceFunction_ne_zero : serviceFunction ≠ 0

namespace Registration

variable (registration : Registration)

def isSpaceSwitch : Bool := registration.flags &&& CMS_SERVICE_FLAG_SPACE_SWITCH ≠ 0

def codeInCommon : Bool := registration.flags &&& CMS_SERVICE_FLAG_CODE_IN_COMMON ≠ 0

def relocateToCommon : Bool := registration.flags &&& CMS_SERVICE_FLAG_RELOCATE_TO_COMMON ≠ 0

def relocationRequired : Bool :=
  (registration.isSpaceSwitch && registration.relocateToCommon && !registration.codeInCommon) ||
    (!registration.isSpaceSwitch && !registration.codeInCommon)

end Registration

def ServerModule.isLocal (module : ServerModule) (function : BitVec 32) : Bool :=
  module.moduleAddressLocal.toNat ≤ function.toNat &&
    function.toNat ≤ module.moduleAddressLocal.toNat + module.moduleSize.toNat

def initStandardServices : ServiceTable := fun id =>
  if 1 ≤ id ∧ id ≤ 4 then
    ⟨0, CROSS_MEMORY_SERVICE_FLAG_INITIALIZED ||| CROSS_MEMORY_SERVICE_FLAG_SPACE_SWITCH, 0⟩
  else ⟨0, 0, 0⟩

def isServiceEntryAvailable (entry : CrossMemoryService) : Bool := entry.function = 0

def cmsRegisterService (module : ServerModule) (serviceTable : ServiceTable)
    (registration : Registration) : ℤ × ServiceTable :=
  if registration.id < CROSS_MEMORY_SERVER_MIN_SERVICE_ID ∨
      CROSS_MEMORY_SERVER_MAX_SERVICE_ID < registration.id then
    (RC_CMS_FUNCTION_ID_OUT_OF_RANGE, serviceTable)
  else if !isServiceEntryAvailable (serviceTable registration.id.toNat) then
    (RC_CMS_SERVICE_ENTRY_OCCUPIED, serviceTable)
  else if registration.relocationRequired && !module.isLocal registration.serviceFunction then
    (RC_CMS_SERVICE_NOT_RELOCATABLE, serviceTable)
  else
    let lpa := if registration.relocationRequired then CROSS_MEMORY_SERVICE_FLAG_LPA else 0
    let spaceSwitch :=
      if registration.isSpaceSwitch then CROSS_MEMORY_SERVICE_FLAG_SPACE_SWITCH else 0
    (RC_CMS_OK, Function.update serviceTable registration.id.toNat
      ⟨registration.serviceFunction, lpa ||| spaceSwitch, registration.serviceData⟩)

/-- What becomes of an entry when the table is initialized. A function that is not in the module
is not left out in the end: its address is changed all the same. -/
def initializeService (module : ServerModule) (service : CrossMemoryService) : CrossMemoryService :=
  let relocationRequired := service.flags &&& CROSS_MEMORY_SERVICE_FLAG_SPACE_SWITCH = 0 ∨
    service.flags &&& CROSS_MEMORY_SERVICE_FLAG_LPA ≠ 0
  if service.function ≠ 0 then
    let flags := service.flags ||| CROSS_MEMORY_SERVICE_FLAG_INITIALIZED
    if relocationRequired then
      { service with
        flags := if module.isLocal service.function then flags else 0
        function := service.function - module.moduleAddressLocal + module.moduleAddressLPA }
    else { service with flags := flags }
  else service

def initializeServiceTable (module : ServerModule) (serviceTable : ServiceTable) : ServiceTable :=
  fun id =>
    if CROSS_MEMORY_SERVER_MIN_SERVICE_ID ≤ id ∧ id ≤ CROSS_MEMORY_SERVER_MAX_SERVICE_ID then
      initializeService module (serviceTable id)
    else serviceTable id

/-! Program calls -/

structure CrossMemoryServerParmList where
  eyecatcher : List Byte
  version : BitVec 32
  serviceID : ℤ
  flags : BitVec 16
  callerData : BitVec 64

structure CrossMemoryServerGlobalArea where
  localServerAddress : BitVec 32
  serviceTable : ServiceTable

/-- What decides about a call besides its parameters: who the caller is, whether the recovery can
be set up, and what the functions do, which may end abnormally. -/
structure Environment where
  isCallerAuthorized : Bool → Bool
  recoveryPush : ℤ
  handleStandardService : CrossMemoryServerParmList → ℤ
  run : BitVec 32 → BitVec 64 → BitVec 64 → Option ℤ

structure FunctionCall where
  function : BitVec 32
  serviceData : BitVec 64
  callerData : BitVec 64
  deriving DecidableEq

def isStandardService (serviceID : ℤ) : Bool :=
  0 < serviceID && serviceID < CROSS_MEMORY_SERVER_MIN_SERVICE_ID

/-- The return code, and the function that is called if one is. -/
def handleUnsafeProgramCall (environment : Environment) (globalArea : CrossMemoryServerGlobalArea)
    (userParmList : Option CrossMemoryServerParmList) (isSpaceSwitchPC : Bool) :
    ℤ × Option FunctionCall :=
  match userParmList with
  | none => (RC_CMS_USER_PARM_NULL, none)
  | some parmList =>
    if parmList.eyecatcher ≠ CMS_PARMLIST_EYECATCHER then (RC_CMS_PARM_BAD_EYECATCHER, none)
    else if parmList.version ≠ CROSS_MEMORY_SERVER_VERSION then (RC_CMS_WRONG_CLIENT_VERSION, none)
    else if parmList.serviceID ≤ 0 ∨ CROSS_MEMORY_SERVER_MAX_SERVICE_ID < parmList.serviceID then
      (RC_CMS_FUNCTION_ID_OUT_OF_RANGE, none)
    else if !environment.isCallerAuthorized (parmList.flags &&& CMS_PARMLIST_FLAG_NO_SAF_CHECK ≠ 0) then
      (RC_CMS_PERMISSION_DENIED, none)
    else if globalArea.localServerAddress = 0 then (RC_CMS_SERVER_NULL, none)
    else
      let service := globalArea.serviceTable parmList.serviceID.toNat
      let isServiceSpaceSwitch : Bool :=
        service.flags &&& CROSS_MEMORY_SERVICE_FLAG_SPACE_SWITCH ≠ 0
      if service.flags &&& CROSS_MEMORY_SERVICE_FLAG_INITIALIZED = 0 then
        (RC_CMS_SERVICE_NOT_INITIALIZED, none)
      else if isSpaceSwitchPC ≠ isServiceSpaceSwitch then (RC_CMS_IMPROPER_SERVICE_AS, none)
      else if isStandardService parmList.serviceID then
        (environment.handleStandardService parmList, none)
      else if service.function = 0 then (RC_CMS_FUNCTION_NULL, none)
      else if environment.recoveryPush = RC_RCV_OK then
        let rc :=
          match environment.run service.function service.serviceData parmList.callerData with
          | some _ => RC_CMS_OK
          | none => RC_CMS_PC_SERVICE_ABEND_DETECTED
        (rc, some ⟨service.function, service.serviceData, parmList.callerData⟩)
      else if environment.recoveryPush = RC_RCV_ABENDED then
        (RC_CMS_PC_SERVICE_ABEND_DETECTED, none)
      else (RC_CMS_PC_RECOVERY_ENV_FAILED, none)

/-- The registrations in their order: the table after them, and those that succeeded. -/
def registerServices (module : ServerModule) :
    ServiceTable → List Registration → ServiceTable × List Registration
  | serviceTable, [] => (serviceTable, [])
  | serviceTable, registration :: registrations =>
    let (rc, serviceTable) := cmsRegisterService module serviceTable registration
    let (serviceTable, registered) := registerServices module serviceTable registrations
    (serviceTable, if rc = RC_CMS_OK then registration :: registered else registered)

/-! What a service that is registered can be called for -/

/-- Where the code of a service is: where it was, or at the same place in the common copy. -/
def ServerModule.codeAddress (module : ServerModule) (registration : Registration) : ℕ :=
  if registration.codeInCommon ∨ (registration.isSpaceSwitch ∧ ¬ registration.relocateToCommon) then
    registration.serviceFunction.toNat
  else
    registration.serviceFunction.toNat - module.moduleAddressLocal.toNat +
      module.moduleAddressLPA.toNat

/-- Nothing but the id and the kind of the program call is left to decide. -/
structure Admitted (environment : Environment) (globalArea : CrossMemoryServerGlobalArea)
    (parmList : CrossMemoryServerParmList) : Prop where
  eyecatcher : parmList.eyecatcher = CMS_PARMLIST_EYECATCHER
  version : parmList.version = CROSS_MEMORY_SERVER_VERSION
  authorized :
    environment.isCallerAuthorized (parmList.flags &&& CMS_PARMLIST_FLAG_NO_SAF_CHECK ≠ 0) = true
  server : globalArea.localServerAddress ≠ 0
  recovery : environment.recoveryPush = RC_RCV_OK

structure IsCallable (module : ServerModule) (serviceTable : ServiceTable)
    (registration : Registration) : Prop where
  initialized : (serviceTable registration.id.toNat).flags &&&
    CROSS_MEMORY_SERVICE_FLAG_INITIALIZED ≠ 0
  spaceSwitch : (serviceTable registration.id.toNat).flags &&&
    CROSS_MEMORY_SERVICE_FLAG_SPACE_SWITCH ≠ 0 ↔ registration.isSpaceSwitch
  serviceData : (serviceTable registration.id.toNat).serviceData = registration.serviceData
  function : (serviceTable registration.id.toNat).function.toNat = module.codeAddress registration
  /-- The function is called from the program call of its kind. -/
  reached : ∀ environment localServerAddress parmList,
    Admitted environment ⟨localServerAddress, serviceTable⟩ parmList →
    parmList.serviceID = registration.id →
    ∃ function, function.toNat = module.codeAddress registration ∧
      (handleUnsafeProgramCall environment ⟨localServerAddress, serviceTable⟩ (some parmList)
        registration.isSpaceSwitch).2 =
        some ⟨function, registration.serviceData, parmList.callerData⟩
  /-- No other function is called, and none from the other program call. -/
  only : ∀ environment localServerAddress parmList isSpaceSwitchPC call,
    parmList.serviceID = registration.id →
    (handleUnsafeProgramCall environment ⟨localServerAddress, serviceTable⟩ (some parmList)
      isSpaceSwitchPC).2 = some call →
    isSpaceSwitchPC = registration.isSpaceSwitch ∧
      call.function.toNat = module.codeAddress registration

/-- All services that were registered can be called when the table is initialized. -/
def AllCallable (module : ServerModule) (registrations : List Registration) : Prop :=
  let (serviceTable, registered) := registerServices module initStandardServices registrations
  ∀ registration ∈ registered,
    IsCallable module (initializeServiceTable module serviceTable) registration

/-- What is registered is no code in common storage without a space switch, unless the copy of
the module is the module. -/
def KeepsItsCode (module : ServerModule) (registration : Registration) : Prop :=
  registration.codeInCommon → ¬ registration.isSpaceSwitch →
    module.isLocal registration.serviceFunction ∧
      module.moduleAddressLPA = module.moduleAddressLocal

section Entry

variable {module : ServerModule} {serviceTable : ServiceTable} {registration : Registration}

def registeredFlags (relocationRequired isSpaceSwitch : Bool) : BitVec 32 :=
  (if relocationRequired then CROSS_MEMORY_SERVICE_FLAG_LPA else 0) |||
    (if isSpaceSwitch then CROSS_MEMORY_SERVICE_FLAG_SPACE_SWITCH else 0)

def registeredService (registration : Registration) : CrossMemoryService :=
  ⟨registration.serviceFunction,
    registeredFlags registration.relocationRequired registration.isSpaceSwitch,
    registration.serviceData⟩

/-- What a registration that succeeds does. -/
structure Registers (module : ServerModule) (serviceTable : ServiceTable)
    (registration : Registration) : Prop where
  id_range : CROSS_MEMORY_SERVER_MIN_SERVICE_ID ≤ registration.id ∧
    registration.id ≤ CROSS_MEMORY_SERVER_MAX_SERVICE_ID
  available : (serviceTable registration.id.toNat).function = 0
  relocatable : registration.relocationRequired → module.isLocal registration.serviceFunction

theorem cmsRegisterService_cases (module : ServerModule) (serviceTable : ServiceTable)
    (registration : Registration) :
    (Registers module serviceTable registration ∧
      cmsRegisterService module serviceTable registration = (RC_CMS_OK,
        Function.update serviceTable registration.id.toNat (registeredService registration))) ∨
    ∃ rc, rc ≠ RC_CMS_OK ∧
      cmsRegisterService module serviceTable registration = (rc, serviceTable) := by
  unfold cmsRegisterService
  by_cases hid : registration.id < CROSS_MEMORY_SERVER_MIN_SERVICE_ID ∨
      CROSS_MEMORY_SERVER_MAX_SERVICE_ID < registration.id
  · rw [if_pos hid]
    exact Or.inr ⟨_, by decide, rfl⟩
  rw [if_neg hid]
  by_cases havailable : (!isServiceEntryAvailable (serviceTable registration.id.toNat)) = true
  · rw [if_pos havailable]
    exact Or.inr ⟨_, by decide, rfl⟩
  rw [if_neg havailable]
  by_cases hrelocatable :
      (registration.relocationRequired && !module.isLocal registration.serviceFunction) = true
  · rw [if_pos hrelocatable]
    exact Or.inr ⟨_, by decide, rfl⟩
  rw [if_neg hrelocatable]
  refine Or.inl ⟨⟨?_, ?_, ?_⟩, rfl⟩
  · omega
  · simpa [isServiceEntryAvailable] using havailable
  · simpa using hrelocatable

/-- The entry and all that have been registered before stay as they are. -/
theorem registerServices_keeps (registrations : List Registration) {id : ℕ}
    (h : (serviceTable id).function ≠ 0) :
    (registerServices module serviceTable registrations).1 id = serviceTable id := by
  induction registrations generalizing serviceTable with
  | nil => rfl
  | cons other registrations ih =>
    rcases cmsRegisterService_cases module serviceTable other with ⟨hreg, heq⟩ | ⟨rc, hrc, heq⟩
    · have hne : id ≠ other.id.toNat := by
        rintro rfl
        exact h hreg.available
      have hother : Function.update serviceTable other.id.toNat (registeredService other) id =
          serviceTable id := Function.update_of_ne hne _ _
      simp only [registerServices, heq]
      rw [ih (by rw [hother]; exact h), hother]
    · simp only [registerServices, heq]
      exact ih h

/-- The table after all registrations has the entries of those that succeeded. -/
theorem registerServices_entry (registrations : List Registration)
    (h : registration ∈ (registerServices module serviceTable registrations).2) :
    ∃ before, Registers module before registration ∧
      (registerServices module serviceTable registrations).1 registration.id.toNat =
        registeredService registration := by
  induction registrations generalizing serviceTable with
  | nil => cases h
  | cons other registrations ih =>
    rcases cmsRegisterService_cases module serviceTable other with ⟨hreg, heq⟩ | ⟨rc, hrc, heq⟩
    · simp only [registerServices, heq, if_true] at h ⊢
      rcases List.mem_cons.mp h with rfl | hmem
      · refine ⟨serviceTable, hreg, ?_⟩
        have hentry : Function.update serviceTable registration.id.toNat
            (registeredService registration) registration.id.toNat =
              registeredService registration := Function.update_self _ _ _
        rw [registerServices_keeps, hentry]
        rw [hentry]
        exact registration.serviceFunction_ne_zero
      · exact ih hmem
    · simp only [registerServices, heq, if_neg hrc] at h ⊢
      exact ih h

theorem registeredFlags_spec (relocationRequired isSpaceSwitch : Bool) :
    let flags := registeredFlags relocationRequired isSpaceSwitch
    (flags &&& CROSS_MEMORY_SERVICE_FLAG_SPACE_SWITCH ≠ 0 ↔ isSpaceSwitch) ∧
    (flags &&& CROSS_MEMORY_SERVICE_FLAG_LPA ≠ 0 ↔ relocationRequired) ∧
    (flags ||| CROSS_MEMORY_SERVICE_FLAG_INITIALIZED) &&&
      CROSS_MEMORY_SERVICE_FLAG_INITIALIZED ≠ 0 ∧
    ((flags ||| CROSS_MEMORY_SERVICE_FLAG_INITIALIZED) &&&
      CROSS_MEMORY_SERVICE_FLAG_SPACE_SWITCH ≠ 0 ↔ isSpaceSwitch) := by
  cases relocationRequired <;> cases isSpaceSwitch <;> decide

theorem initializeService_registered (module : ServerModule) (registration : Registration) :
    initializeService module (registeredService registration) =
      if registration.isSpaceSwitch = false ∨ registration.relocationRequired then
        ⟨registration.serviceFunction - module.moduleAddressLocal + module.moduleAddressLPA,
          if module.isLocal registration.serviceFunction then
            (registeredService registration).flags ||| CROSS_MEMORY_SERVICE_FLAG_INITIALIZED
          else 0, registration.serviceData⟩
      else
        ⟨registration.serviceFunction,
          (registeredService registration).flags ||| CROSS_MEMORY_SERVICE_FLAG_INITIALIZED,
          registration.serviceData⟩ := by
  obtain ⟨hswitch, hlpa, -, -⟩ :=
    registeredFlags_spec registration.relocationRequired registration.isSpaceSwitch
  have hrequired : ((registeredService registration).flags &&&
        CROSS_MEMORY_SERVICE_FLAG_SPACE_SWITCH = 0 ∨
      (registeredService registration).flags &&& CROSS_MEMORY_SERVICE_FLAG_LPA ≠ 0) ↔
      (registration.isSpaceSwitch = false ∨ registration.relocationRequired) := by
    rw [← Bool.not_eq_true, ← hswitch, ← hlpa, not_not]
    rfl
  have hfunction : (registeredService registration).function ≠ 0 :=
    registration.serviceFunction_ne_zero
  unfold initializeService
  rw [if_pos hfunction]
  by_cases h : registration.isSpaceSwitch = false ∨ registration.relocationRequired
  · rw [if_pos (hrequired.mpr h), if_pos h]
    rfl
  · rw [if_neg (mt hrequired.mp h), if_neg h]
    rfl

theorem toNat_relocated {function : BitVec 32} (h : module.isLocal function) :
    (function - module.moduleAddressLocal + module.moduleAddressLPA).toNat =
      function.toNat - module.moduleAddressLocal.toNat + module.moduleAddressLPA.toNat := by
  have hlocal : module.moduleAddressLocal.toNat ≤ function.toNat ∧
      function.toNat ≤ module.moduleAddressLocal.toNat + module.moduleSize.toNat := by
    simpa [ServerModule.isLocal] using h
  have hlpa := module.lpa_below
  have hle : module.moduleAddressLocal ≤ function := hlocal.1
  rw [BitVec.toNat_add, BitVec.toNat_sub_of_le hle]
  apply Nat.mod_eq_of_lt
  omega

end Entry

section ProgramCall

variable {environment : Environment} {globalArea : CrossMemoryServerGlobalArea}
  {parmList : CrossMemoryServerParmList} {isSpaceSwitchPC : Bool}

theorem not_refused {c : Prop} [Decidable c] {rc : ℤ} {rest : ℤ × Option FunctionCall}
    {call : FunctionCall} (h : (if c then (rc, none) else rest).2 = some call) :
    ¬ c ∧ rest.2 = some call := by
  split_ifs at h with hc
  exact ⟨hc, h⟩

/-- The function that is called is that of the entry, for the program call of its kind. -/
theorem handleUnsafeProgramCall_only {call : FunctionCall}
    (h : (handleUnsafeProgramCall environment globalArea (some parmList) isSpaceSwitchPC).2 =
      some call) :
    isSpaceSwitchPC = ((globalArea.serviceTable parmList.serviceID.toNat).flags &&&
      CROSS_MEMORY_SERVICE_FLAG_SPACE_SWITCH ≠ 0 : Bool) ∧
      call.function = (globalArea.serviceTable parmList.serviceID.toNat).function := by
  unfold handleUnsafeProgramCall at h
  dsimp only at h
  obtain ⟨-, h⟩ := not_refused h
  obtain ⟨-, h⟩ := not_refused h
  obtain ⟨-, h⟩ := not_refused h
  obtain ⟨-, h⟩ := not_refused h
  obtain ⟨-, h⟩ := not_refused h
  obtain ⟨-, h⟩ := not_refused h
  obtain ⟨hswitch, h⟩ := not_refused h
  obtain ⟨-, h⟩ := not_refused h
  obtain ⟨-, h⟩ := not_refused h
  refine ⟨not_not.mp hswitch, ?_⟩
  by_cases hrecovery : environment.recoveryPush = RC_RCV_OK
  · rw [if_pos hrecovery] at h
    rw [← Option.some.inj h]
  · rw [if_neg hrecovery] at h
    split_ifs at h

theorem handleUnsafeProgramCall_calls (isSpaceSwitchPC : Bool) (hadmitted : Admitted environment globalArea parmList)
    (hid : CROSS_MEMORY_SERVER_MIN_SERVICE_ID ≤ parmList.serviceID ∧
      parmList.serviceID ≤ CROSS_MEMORY_SERVER_MAX_SERVICE_ID)
    (hinit : (globalArea.serviceTable parmList.serviceID.toNat).flags &&&
      CROSS_MEMORY_SERVICE_FLAG_INITIALIZED ≠ 0)
    (hswitch : isSpaceSwitchPC = ((globalArea.serviceTable parmList.serviceID.toNat).flags &&&
      CROSS_MEMORY_SERVICE_FLAG_SPACE_SWITCH ≠ 0 : Bool))
    (hfunction : (globalArea.serviceTable parmList.serviceID.toNat).function ≠ 0) :
    (handleUnsafeProgramCall environment globalArea (some parmList) isSpaceSwitchPC).2 =
      some ⟨(globalArea.serviceTable parmList.serviceID.toNat).function,
        (globalArea.serviceTable parmList.serviceID.toNat).serviceData, parmList.callerData⟩ := by
  have hmin : CROSS_MEMORY_SERVER_MIN_SERVICE_ID = 10 := rfl
  have hstandard : ¬ isStandardService parmList.serviceID = true := by
    simp only [isStandardService, Bool.and_eq_true, decide_eq_true_eq]
    omega
  unfold handleUnsafeProgramCall
  dsimp only
  rw [if_neg (not_not.mpr hadmitted.eyecatcher), if_neg (not_not.mpr hadmitted.version),
    if_neg (by omega), if_neg (by rw [hadmitted.authorized]; decide), if_neg hadmitted.server,
    if_neg hinit, if_neg (not_not.mpr hswitch), if_neg hstandard, if_neg hfunction,
    if_pos hadmitted.recovery]

end ProgramCall

section Callable

variable {module : ServerModule} {serviceTable : ServiceTable} {registration : Registration}

theorem isCallable_of_entry (hid : CROSS_MEMORY_SERVER_MIN_SERVICE_ID ≤ registration.id ∧
      registration.id ≤ CROSS_MEMORY_SERVER_MAX_SERVICE_ID)
    (hinit : (serviceTable registration.id.toNat).flags &&&
      CROSS_MEMORY_SERVICE_FLAG_INITIALIZED ≠ 0)
    (hswitch : (serviceTable registration.id.toNat).flags &&&
      CROSS_MEMORY_SERVICE_FLAG_SPACE_SWITCH ≠ 0 ↔ registration.isSpaceSwitch)
    (hdata : (serviceTable registration.id.toNat).serviceData = registration.serviceData)
    (hfunction : (serviceTable registration.id.toNat).function.toNat =
      module.codeAddress registration)
    (hne : (serviceTable registration.id.toNat).function ≠ 0) :
    IsCallable module serviceTable registration := by
  have hkind : registration.isSpaceSwitch = ((serviceTable registration.id.toNat).flags &&&
      CROSS_MEMORY_SERVICE_FLAG_SPACE_SWITCH ≠ 0 : Bool) := by
    rw [Bool.eq_iff_iff, decide_eq_true_iff]
    exact hswitch.symm
  refine ⟨hinit, hswitch, hdata, hfunction, ?_, ?_⟩
  · intro environment localServerAddress parmList hadmitted hparm
    refine ⟨(serviceTable registration.id.toNat).function, hfunction, ?_⟩
    have hcall := handleUnsafeProgramCall_calls registration.isSpaceSwitch hadmitted
      (by rw [hparm]; exact hid) (by rw [hparm]; exact hinit)
      (by rw [hparm]; exact hkind) (by rw [hparm]; exact hne)
    rw [hcall, hparm, hdata]
  · intro environment localServerAddress parmList isSpaceSwitchPC call hparm hcall
    obtain ⟨hpc, hcalled⟩ := handleUnsafeProgramCall_only hcall
    rw [hparm] at hpc hcalled
    exact ⟨hpc.trans hkind.symm, by rw [hcalled, hfunction]⟩

theorem relocationRequired_iff (registration : Registration) :
    registration.relocationRequired ↔ ¬ (registration.codeInCommon ∨
      (registration.isSpaceSwitch ∧ ¬ registration.relocateToCommon)) := by
  unfold Registration.relocationRequired
  cases registration.isSpaceSwitch <;> cases registration.relocateToCommon <;>
    cases registration.codeInCommon <;> decide

/-- A service that has to be in common storage is called there. -/
theorem isCallable_of_relocated (hid : CROSS_MEMORY_SERVER_MIN_SERVICE_ID ≤ registration.id ∧
      registration.id ≤ CROSS_MEMORY_SERVER_MAX_SERVICE_ID)
    (hswitch : registration.isSpaceSwitch = false ∨ registration.relocationRequired)
    (hlocal : module.isLocal registration.serviceFunction)
    (hcode : registration.serviceFunction.toNat - module.moduleAddressLocal.toNat +
      module.moduleAddressLPA.toNat = module.codeAddress registration)
    (hentry : serviceTable registration.id.toNat =
      initializeService module (registeredService registration)) :
    IsCallable module serviceTable registration := by
  obtain ⟨-, -, hinit, hflag⟩ :=
    registeredFlags_spec registration.relocationRequired registration.isSpaceSwitch
  rw [initializeService_registered, if_pos hswitch, if_pos hlocal] at hentry
  apply isCallable_of_entry hid
  · rw [hentry]
    exact hinit
  · rw [hentry]
    exact hflag
  · rw [hentry]
  · rw [hentry, ← hcode]
    exact toNat_relocated hlocal
  · rw [hentry]
    intro hzero
    have htoNat := toNat_relocated hlocal
    have hlpa : module.moduleAddressLPA.toNat ≠ 0 := by
      intro h
      exact module.moduleAddressLPA_ne_zero (BitVec.eq_of_toNat_eq h)
    have hsum : (registration.serviceFunction - module.moduleAddressLocal +
        module.moduleAddressLPA).toNat = 0 := congrArg BitVec.toNat hzero
    omega

/-- A service that stays where it is is called there. -/
theorem isCallable_of_kept (hid : CROSS_MEMORY_SERVER_MIN_SERVICE_ID ≤ registration.id ∧
      registration.id ≤ CROSS_MEMORY_SERVER_MAX_SERVICE_ID)
    (hswitch : ¬ (registration.isSpaceSwitch = false ∨ registration.relocationRequired))
    (hentry : serviceTable registration.id.toNat =
      initializeService module (registeredService registration)) :
    IsCallable module serviceTable registration := by
  obtain ⟨-, -, hinit, hflag⟩ :=
    registeredFlags_spec registration.relocationRequired registration.isSpaceSwitch
  rw [initializeService_registered, if_neg hswitch] at hentry
  have hcommon := not_not.mp (mt (relocationRequired_iff registration).mpr
    fun hrequired => hswitch (Or.inr hrequired))
  apply isCallable_of_entry hid
  · rw [hentry]
    exact hinit
  · rw [hentry]
    exact hflag
  · rw [hentry]
  · rw [hentry, ServerModule.codeAddress, if_pos hcommon]
  · rw [hentry]
    exact registration.serviceFunction_ne_zero

theorem isCallable_iff {before : ServiceTable} (hreg : Registers module before registration)
    (hentry : serviceTable registration.id.toNat = registeredService registration) :
    IsCallable module (initializeServiceTable module serviceTable) registration ↔
      KeepsItsCode module registration := by
  have hid := hreg.id_range
  have hmin : CROSS_MEMORY_SERVER_MIN_SERVICE_ID = 10 := rfl
  have htable : initializeServiceTable module serviceTable registration.id.toNat =
      initializeService module (registeredService registration) := by
    have hcast : (registration.id.toNat : ℤ) = registration.id := Int.toNat_of_nonneg (by omega)
    unfold initializeServiceTable
    rw [if_pos (by rw [hcast]; exact hid), hentry]
  have hrequired := relocationRequired_iff registration
  by_cases hswitch : registration.isSpaceSwitch = false ∨ registration.relocationRequired
  · by_cases hrelocate : registration.relocationRequired = true
    · have hcode := hrequired.mp hrelocate
      refine ⟨fun _ hcommon => absurd (Or.inl hcommon) hcode, fun _ => ?_⟩
      apply isCallable_of_relocated hid hswitch (hreg.relocatable hrelocate) ?_ htable
      rw [ServerModule.codeAddress, if_neg hcode]
    · -- the code is in common storage, but the table is initialized as if it were not
      have hss : registration.isSpaceSwitch = false := by
        rcases hswitch with h | h
        · exact h
        · exact absurd h hrelocate
      have hcommon := not_not.mp (mt hrequired.mpr hrelocate)
      have hcode : module.codeAddress registration = registration.serviceFunction.toNat :=
        if_pos hcommon
      constructor
      · intro hcallable _ _
        have hinit := hcallable.initialized
        have hfunction := hcallable.function
        rw [htable, initializeService_registered, if_pos hswitch] at hinit hfunction
        have hlocal : module.isLocal registration.serviceFunction = true := by
          by_contra hlocal
          dsimp only at hinit
          rw [if_neg hlocal] at hinit
          exact hinit (BitVec.zero_and)
        refine ⟨hlocal, ?_⟩
        rw [hcode] at hfunction
        dsimp only at hfunction
        rw [toNat_relocated hlocal] at hfunction
        have hrange : module.moduleAddressLocal.toNat ≤ registration.serviceFunction.toNat ∧
            registration.serviceFunction.toNat ≤
              module.moduleAddressLocal.toNat + module.moduleSize.toNat := by
          simpa [ServerModule.isLocal] using hlocal
        apply BitVec.eq_of_toNat_eq
        omega
      · intro hkeeps
        have hcommon : registration.codeInCommon = true := by
          rcases hcommon with h | h
          · exact h
          · rw [hss] at h
            exact absurd h.1 Bool.false_ne_true
        obtain ⟨hlocal, hlpa⟩ := hkeeps hcommon (by rw [hss]; exact Bool.false_ne_true)
        apply isCallable_of_relocated hid hswitch hlocal ?_ htable
        have hrange : module.moduleAddressLocal.toNat ≤ registration.serviceFunction.toNat ∧
            registration.serviceFunction.toNat ≤
              module.moduleAddressLocal.toNat + module.moduleSize.toNat := by
          simpa [ServerModule.isLocal] using hlocal
        rw [hcode, hlpa]
        omega
  · have hss : registration.isSpaceSwitch = true := by
      rw [← Bool.not_eq_false]
      exact fun h => hswitch (Or.inl h)
    exact ⟨fun _ _ hnot => absurd hss hnot, fun _ => isCallable_of_kept hid hswitch htable⟩

end Callable

/-- Exactly the services that are registered with code that can be kept can all be called. -/
theorem allCallable_iff (module : ServerModule) (registrations : List Registration) :
    AllCallable module registrations ↔
      ∀ registration ∈ (registerServices module initStandardServices registrations).2,
        KeepsItsCode module registration := by
  have hall : ∀ registration ∈ (registerServices module initStandardServices registrations).2,
      (IsCallable module (initializeServiceTable module
        (registerServices module initStandardServices registrations).1) registration ↔
          KeepsItsCode module registration) := by
    intro registration hmem
    obtain ⟨before, hreg, hentry⟩ := registerServices_entry registrations hmem
    exact isCallable_iff hreg hentry
  exact forall₂_congr hall

/-- A module with a copy in common storage. -/
def sampleModule : ServerModule where
  moduleAddressLocal := 0x10000
  moduleAddressLPA := 0x20000
  moduleSize := 0x1000
  moduleAddressLPA_ne_zero := by decide
  local_below := by decide
  lpa_below := by decide

/-- Code in common storage that is to run in the address space of its callers. -/
def commonService : Registration where
  id := 10
  serviceFunction := 0x30000
  serviceData := 0
  flags := CMS_SERVICE_FLAG_CODE_IN_COMMON
  serviceFunction_ne_zero := by decide

/-- Such a service is registered, but it is not in the table that calls see. -/
theorem not_allCallable :
    ¬ ∀ (module : ServerModule) (registrations : List Registration),
      AllCallable module registrations := by
  intro h
  have hmem : commonService ∈
      (registerServices sampleModule initStandardServices [commonService]).2 :=
    List.mem_cons_self
  have hcallable := h sampleModule [commonService] commonService hmem
  exact hcallable.initialized (by decide)

end CrossMemoryServer
end ZoweCommon
