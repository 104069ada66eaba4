import ZoweCommon.CrossMemory.ServiceTable

/-! The chain of global areas in the vector table, and the two routines that look a server up in it:
the function, and the assembler routine that is installed for others. -/
namespace ZoweCommon
namespace ZVT
open CrossMemoryServer (RC_CMS_OK CROSS_MEMORY_SERVER_VERSION)

def RC_CMS_GLOBAL_AREA_NULL : ℤ := 12
def RC_CMS_ZVT_NULL : ℤ := 47
def RC_CMS_ZVTE_CHAIN_LOOP : ℤ := 66

def RSN_CMSLOOKUP_OK : ℤ := 0
def RSN_CMSLOOKUP_NOCMS : ℤ := 2
def RSN_CMSLOOKUP_NOZVT : ℤ := 4
def RSN_CMSLOOKUP_LOOP : ℤ := 16

def CMS_MAX_ZVTE_CHAIN_LENGTH : ℕ := 128
def CROSS_MEMORY_SERVER_DISCARDED_VERSION : BitVec 32 := 3735935610
def CMS_GLOBAL_AREA_EYECATCHER : List Byte := Ebcdic.literal "RSCMSRVG"

/-- Sixteen bytes, with blanks at the end. -/
structure CrossMemoryServerName where
  nameSpacePadded : List Byte
  length_eq : nameSpacePadded.length = 16
  deriving DecidableEq

def cmsMakeServerName (nameNullTerm : CString) : CrossMemoryServerName where
  nameSpacePadded := (nameNullTerm.bytes ++ List.replicate 16 0x40).take 16
  length_eq := by
    rw [List.length_take, List.length_append, List.length_replicate]
    omega

structure GlobalArea where
  eyecatcher : List Byte
  version : BitVec 32
  serverName : CrossMemoryServerName
  deriving DecidableEq

structure ZVTEntry where
  productAnchor : Option GlobalArea
  deriving DecidableEq

/-- The entries from the slot of the servers on. -/
abbrev Chain := List ZVTEntry

/-- The vector table, which is not there before the first server starts. -/
abbrev Table := Option Chain

section Function

variable (serverName : CrossMemoryServerName)

def ZVTEntry.isCandidate (currZVTE : ZVTEntry) : Bool :=
  match currZVTE.productAnchor with
  | none => false
  | some globalAreaCandidate =>
    globalAreaCandidate.serverName = serverName &&
      globalAreaCandidate.version = CROSS_MEMORY_SERVER_VERSION

/-- The index at which the loop ends, and the global area it has found, by its place. -/
def findGlobalArea (entryIdx : ℕ) : Chain → ℕ × Option ℕ
  | [] => (entryIdx, none)
  | currZVTE :: next =>
    if entryIdx < CMS_MAX_ZVTE_CHAIN_LENGTH then
      if currZVTE.isCandidate serverName then (entryIdx, some entryIdx)
      else findGlobalArea (entryIdx + 1) next
    else (entryIdx, none)

def cmsGetGlobalArea : Table → ℤ × Option ℕ
  | none => (RC_CMS_ZVT_NULL, none)
  | some chain =>
    let (entryIdx, globalArea) := findGlobalArea serverName 0 chain
    if entryIdx = CMS_MAX_ZVTE_CHAIN_LENGTH then (RC_CMS_ZVTE_CHAIN_LOOP, none)
    else
      match globalArea with
      | none => (RC_CMS_GLOBAL_AREA_NULL, none)
      | some globalArea => (RC_CMS_OK, some globalArea)

end Function

section Routine

variable (serverName : CrossMemoryServerName)

/-- What the routine leaves an entry with: no anchor, or another eyecatcher or name, or discarded. -/
def ZVTEntry.isFound (zvte : ZVTEntry) : Bool :=
  match zvte.productAnchor with
  | none => false
  | some anchor =>
    if anchor.eyecatcher ≠ CMS_GLOBAL_AREA_EYECATCHER then false
    else if anchor.serverName ≠ serverName then false
    else if anchor.version = CROSS_MEMORY_SERVER_DISCARDED_VERSION then false
    else true

/-- The loop, with the register that counts down and the number of entries it has passed. -/
def zvteLoop (counter : ℤ) (passed : ℕ) : Chain → Option ℕ × ℤ
  | [] => (none, RSN_CMSLOOKUP_NOCMS)
  | zvte :: next =>
    let counter := counter - 1
    if counter ≤ 0 then (none, RSN_CMSLOOKUP_LOOP)
    else if zvte.isFound serverName then (some passed, RSN_CMSLOOKUP_OK)
    else zvteLoop counter (passed + 1) next

def lookupRoutine : Table → Option ℕ × ℤ
  | none => (none, RSN_CMSLOOKUP_NOZVT)
  | some chain => zvteLoop serverName CMS_MAX_ZVTE_CHAIN_LENGTH 0 chain

end Routine

section Start

def ZVTEntry.setVersion (version : BitVec 32) (zvte : ZVTEntry) : ZVTEntry :=
  ⟨zvte.productAnchor.map ({ · with version := version })⟩

def ZVTEntry.setServerName (serverName : CrossMemoryServerName) (zvte : ZVTEntry) : ZVTEntry :=
  ⟨zvte.productAnchor.map ({ · with serverName := serverName })⟩

def zvtInit (zvt : Table) : Table :=
  match zvt with
  | none => some []
  | some chain => some chain

def discardGlobalResources (serverName : CrossMemoryServerName) (zvt : Table) : Table :=
  match cmsGetGlobalArea serverName zvt with
  | (_, none) => zvt
  | (_, some globalArea) =>
    zvt.map (List.modify · globalArea (·.setVersion CROSS_MEMORY_SERVER_DISCARDED_VERSION))

def newGlobalArea : GlobalArea where
  eyecatcher := CMS_GLOBAL_AREA_EYECATCHER
  version := CROSS_MEMORY_SERVER_VERSION
  serverName := ⟨List.replicate 16 0, List.length_replicate⟩

def addGlobalArea (globalArea : GlobalArea) (zvt : Table) : Table :=
  zvt.map (⟨some globalArea⟩ :: ·)

/-- The table after, or the return code of the look-up. -/
def allocateGlobalResources (serverName : CrossMemoryServerName) (zvt : Table) : ℤ × Table :=
  let zvt := zvtInit zvt
  let (getRC, globalArea) := cmsGetGlobalArea serverName zvt
  if getRC ≠ RC_CMS_OK ∧ getRC ≠ RC_CMS_GLOBAL_AREA_NULL then (getRC, zvt)
  else
    let (globalArea, zvt) :=
      match globalArea with
      | none => (0, addGlobalArea newGlobalArea zvt)
      | some globalArea => (globalArea, zvt)
    (RC_CMS_OK, zvt.map (List.modify · globalArea (·.setServerName serverName)))

structure ServerStart where
  serverName : CrossMemoryServerName
  coldStart : Bool

def startServer (zvt : Table) (start : ServerStart) : Table :=
  let zvt := if start.coldStart then discardGlobalResources start.serverName zvt else zvt
  (allocateGlobalResources start.serverName zvt).2

/-- The table after some starts. -/
def tableAfter (starts : List ServerStart) : Table := starts.foldl startServer none

end Start

/-- What a look-up says. -/
inductive Lookup where
  | found (entry : ℕ)
  | notFound
  | loop
  deriving DecidableEq

def Lookup.ofFunction : ℤ × Option ℕ → Lookup
  | (_, some globalArea) => .found globalArea
  | (rc, none) => if rc = RC_CMS_ZVTE_CHAIN_LOOP then .loop else .notFound

def Lookup.ofRoutine : Option ℕ × ℤ → Lookup
  | (some anchor, _) => .found anchor
  | (none, reason) => if reason = RSN_CMSLOOKUP_LOOP then .loop else .notFound

/-- The entry is that of a server of the name, and it is not discarded. -/
def ZVTEntry.isLive (serverName : CrossMemoryServerName) (zvte : ZVTEntry) : Bool :=
  zvte.productAnchor.any fun globalArea =>
    globalArea.serverName = serverName &&
      globalArea.version ≠ CROSS_MEMORY_SERVER_DISCARDED_VERSION

/-- What a look-up is to find. -/
def Lookup.first (serverName : CrossMemoryServerName) (chain : Chain) : Lookup :=
  match chain.findIdx? (·.isLive serverName) with
  | none => .notFound
  | some entry => .found entry

/-- The function and the routine say the same, which is the first live entry of that name, unless
the chain is too long. -/
def LookupsAgree (zvt : Table) (serverName : CrossMemoryServerName) : Prop :=
  Lookup.ofFunction (cmsGetGlobalArea serverName zvt) = Lookup.ofRoutine (lookupRoutine serverName zvt) ∧
    (Lookup.ofFunction (cmsGetGlobalArea serverName zvt) = Lookup.first serverName (zvt.getD []) ∨
      Lookup.ofFunction (cmsGetGlobalArea serverName zvt) = .loop ∧
        CMS_MAX_ZVTE_CHAIN_LENGTH < (zvt.getD []).length)

def ZVTEntry.OfServer (zvte : ZVTEntry) : Prop :=
  ∃ globalArea, zvte.productAnchor = some globalArea ∧
    globalArea.eyecatcher = CMS_GLOBAL_AREA_EYECATCHER ∧
    (globalArea.version = CROSS_MEMORY_SERVER_VERSION ∨
      globalArea.version = CROSS_MEMORY_SERVER_DISCARDED_VERSION)

/-- The entries are those of servers, and there is room for all of them. -/
structure WellFormed (chain : Chain) : Prop where
  anchors : ∀ zvte ∈ chain, zvte.OfServer
  length_le : chain.length ≤ CMS_MAX_ZVTE_CHAIN_LENGTH

section Entries

variable {zvte : ZVTEntry} {serverName : CrossMemoryServerName} {globalArea : GlobalArea}

theorem isCandidate_eq (h : zvte.productAnchor = some globalArea)
    (hversion : globalArea.version = CROSS_MEMORY_SERVER_VERSION ∨
      globalArea.version = CROSS_MEMORY_SERVER_DISCARDED_VERSION) :
    zvte.isCandidate serverName = zvte.isLive serverName := by
  simp only [ZVTEntry.isCandidate, ZVTEntry.isLive, h, Option.any_some]
  rcases hversion with hversion | hversion <;> rw [hversion] <;> rfl

theorem isFound_eq (h : zvte.productAnchor = some globalArea)
    (heyecatcher : globalArea.eyecatcher = CMS_GLOBAL_AREA_EYECATCHER) :
    zvte.isFound serverName = zvte.isLive serverName := by
  simp only [ZVTEntry.isFound, ZVTEntry.isLive, h, Option.any_some]
  rw [if_neg (not_not.mpr heyecatcher)]
  by_cases hname : globalArea.serverName = serverName
  · by_cases hversion : globalArea.version = CROSS_MEMORY_SERVER_DISCARDED_VERSION
    · simp [hname, hversion]
    · simp [hname, hversion]
  · simp [hname]

end Entries

section Search

variable {serverName : CrossMemoryServerName} {chain : Chain}

/-- The loop of the function looks at as many entries as the limit leaves it. -/
theorem findGlobalArea_eq {entryIdx : ℕ} (h : entryIdx ≤ CMS_MAX_ZVTE_CHAIN_LENGTH) :
    findGlobalArea serverName entryIdx chain =
      match (chain.take (CMS_MAX_ZVTE_CHAIN_LENGTH - entryIdx)).findIdx?
        (·.isCandidate serverName) with
      | none => (min (entryIdx + chain.length) CMS_MAX_ZVTE_CHAIN_LENGTH, none)
      | some i => (entryIdx + i, some (entryIdx + i)) := by
  induction chain generalizing entryIdx with
  | nil =>
    rw [findGlobalArea, List.take_nil, List.findIdx?_nil]
    exact congrArg (·, none) (by rw [List.length_nil]; omega)
  | cons zvte next ih =>
    rw [findGlobalArea]
    by_cases hlimit : entryIdx < CMS_MAX_ZVTE_CHAIN_LENGTH
    · obtain ⟨room, hroom⟩ : ∃ room, CMS_MAX_ZVTE_CHAIN_LENGTH - entryIdx = room + 1 :=
        ⟨CMS_MAX_ZVTE_CHAIN_LENGTH - entryIdx - 1, by omega⟩
      rw [if_pos hlimit, hroom, List.take_succ_cons, List.findIdx?_cons]
      by_cases hfound : zvte.isCandidate serverName = true
      · rw [if_pos hfound, if_pos hfound]
        rfl
      · have hrest : CMS_MAX_ZVTE_CHAIN_LENGTH - (entryIdx + 1) = room := by omega
        rw [if_neg hfound, if_neg hfound, @ih (entryIdx + 1) hlimit, hrest]
        cases (next.take room).findIdx? (·.isCandidate serverName) with
        | none =>
          apply congrArg (·, none)
          rw [List.length_cons]
          omega
        | some i =>
          simp only [Option.map_some]
          rw [Nat.add_assoc, Nat.add_comm 1 i]
    · have hnone : CMS_MAX_ZVTE_CHAIN_LENGTH - entryIdx = 0 := by omega
      rw [if_neg hlimit, hnone, List.take_zero, List.findIdx?_nil]
      exact congrArg (·, none) (by omega)

/-- The loop of the routine counts an entry before it looks at it, so that it looks at one less. -/
theorem zvteLoop_eq {counter passed : ℕ} :
    zvteLoop serverName (counter + 1 : ℕ) passed chain =
      match (chain.take counter).findIdx? (·.isFound serverName) with
      | none =>
        (none, if counter < chain.length then RSN_CMSLOOKUP_LOOP else RSN_CMSLOOKUP_NOCMS)
      | some i => (some (passed + i), RSN_CMSLOOKUP_OK) := by
  induction chain generalizing counter passed with
  | nil =>
    rw [zvteLoop, List.take_nil, List.findIdx?_nil]
    rfl
  | cons zvte next ih =>
    have hcounter : ((counter + 1 : ℕ) : ℤ) - 1 = counter := by omega
    rw [zvteLoop]
    simp only [hcounter]
    cases counter with
    | zero =>
      rw [if_pos (by omega), List.take_zero, List.findIdx?_nil, List.length_cons]
      simp only [if_pos (Nat.succ_pos _)]
    | succ counter =>
      rw [if_neg (by omega), List.take_succ_cons, List.findIdx?_cons]
      by_cases hfound : zvte.isFound serverName = true
      · rw [if_pos hfound, if_pos hfound]
        rfl
      · rw [if_neg hfound, if_neg hfound, ih]
        cases (next.take counter).findIdx? (·.isFound serverName) with
        | none => simp only [Option.map_none, List.length_cons, Nat.add_lt_add_iff_right]
        | some i =>
          simp only [Option.map_some]
          rw [Nat.add_assoc, Nat.add_comm 1 i]

end Search

section Agreement

variable {serverName : CrossMemoryServerName} {chain : Chain}

theorem findIdx?_congr {p q : ZVTEntry → Bool} (h : ∀ zvte ∈ chain, p zvte = q zvte) :
    chain.findIdx? p = chain.findIdx? q := by
  induction chain with
  | nil => rfl
  | cons zvte next ih =>
    obtain ⟨hfirst, hrest⟩ := List.forall_mem_cons.mp h
    rw [List.findIdx?_cons, List.findIdx?_cons, hfirst, ih hrest]

theorem WellFormed.findIdx?_isCandidate (h : WellFormed chain) :
    chain.findIdx? (·.isCandidate serverName) = chain.findIdx? (·.isLive serverName) := by
  apply findIdx?_congr
  intro zvte hmem
  obtain ⟨globalArea, hanchor, -, hversion⟩ := h.anchors zvte hmem
  exact isCandidate_eq hanchor hversion

theorem WellFormed.findIdx?_isFound (h : WellFormed chain) (n : ℕ) :
    (chain.take n).findIdx? (·.isFound serverName) =
      (chain.take n).findIdx? (·.isLive serverName) := by
  apply findIdx?_congr
  intro zvte hmem
  obtain ⟨globalArea, hanchor, heyecatcher, -⟩ := h.anchors zvte (List.mem_of_mem_take hmem)
  exact isFound_eq hanchor heyecatcher

/-- The function sees every entry, and takes a chain that is full for one without an end. -/
theorem WellFormed.cmsGetGlobalArea_eq (h : WellFormed chain) :
    cmsGetGlobalArea serverName (some chain) =
      match chain.findIdx? (·.isLive serverName) with
      | none =>
        (if chain.length < CMS_MAX_ZVTE_CHAIN_LENGTH then RC_CMS_GLOBAL_AREA_NULL
          else RC_CMS_ZVTE_CHAIN_LOOP, none)
      | some i => (RC_CMS_OK, some i) := by
  have hlength := h.length_le
  rw [cmsGetGlobalArea, findGlobalArea_eq (Nat.zero_le _), Nat.sub_zero,
    List.take_of_length_le hlength, h.findIdx?_isCandidate]
  cases hfind : chain.findIdx? (·.isLive serverName) with
  | none =>
    simp only [Nat.zero_add, Nat.min_eq_left hlength]
    by_cases hfull : chain.length = CMS_MAX_ZVTE_CHAIN_LENGTH
    · rw [if_pos hfull, if_neg (by omega)]
    · rw [if_neg hfull, if_pos (by omega)]
  | some i =>
    have hi : i < chain.length := (List.findIdx?_eq_some_iff_findIdx_eq.mp hfind).1
    simp only [Nat.zero_add]
    rw [if_neg (by omega)]

/-- The routine does not see the last entry of a chain that is full. -/
theorem WellFormed.lookupRoutine_eq (h : WellFormed chain) :
    lookupRoutine serverName (some chain) =
      match (chain.take (CMS_MAX_ZVTE_CHAIN_LENGTH - 1)).findIdx? (·.isLive serverName) with
      | none =>
        (none, if chain.length < CMS_MAX_ZVTE_CHAIN_LENGTH then RSN_CMSLOOKUP_NOCMS
          else RSN_CMSLOOKUP_LOOP)
      | some i => (some i, RSN_CMSLOOKUP_OK) := by
  have hloop := @zvteLoop_eq serverName chain (CMS_MAX_ZVTE_CHAIN_LENGTH - 1) 0
  rw [h.findIdx?_isFound] at hloop
  refine Eq.trans hloop ?_
  cases (chain.take (CMS_MAX_ZVTE_CHAIN_LENGTH - 1)).findIdx? (·.isLive serverName) with
  | none =>
    apply congrArg (none, ·)
    by_cases hroom : chain.length < CMS_MAX_ZVTE_CHAIN_LENGTH
    · have hseen : ¬ CMS_MAX_ZVTE_CHAIN_LENGTH - 1 < chain.length := by omega
      rw [if_pos hroom, if_neg hseen]
    · have hunseen : CMS_MAX_ZVTE_CHAIN_LENGTH - 1 < chain.length := by
        rw [CMS_MAX_ZVTE_CHAIN_LENGTH] at hroom ⊢
        omega
      rw [if_neg hroom, if_pos hunseen]
  | some i => simp only [Nat.zero_add]

theorem WellFormed.agree_iff (h : WellFormed chain) :
    LookupsAgree (some chain) serverName ↔ chain.length < CMS_MAX_ZVTE_CHAIN_LENGTH ∨
      ∃ zvte ∈ chain.take (CMS_MAX_ZVTE_CHAIN_LENGTH - 1), zvte.isLive serverName = true := by
  have hlength := h.length_le
  rw [LookupsAgree, h.cmsGetGlobalArea_eq, h.lookupRoutine_eq, Option.getD_some, Lookup.first]
  by_cases hlive : ∃ zvte ∈ chain.take (CMS_MAX_ZVTE_CHAIN_LENGTH - 1), zvte.isLive serverName = true
  · -- both find it, at the same place
    have hsome : (chain.take (CMS_MAX_ZVTE_CHAIN_LENGTH - 1)).findIdx? (·.isLive serverName) ≠ none := by
      intro hnone
      obtain ⟨zvte, hmem, htrue⟩ := hlive
      have hfalse := List.findIdx?_eq_none_iff.mp hnone zvte hmem
      rw [htrue] at hfalse
      cases hfalse
    obtain ⟨i, hi⟩ := Option.ne_none_iff_exists'.mp hsome
    have hall : chain.findIdx? (·.isLive serverName) = some i := by
      rw [List.findIdx?_take] at hi
      obtain ⟨j, hj, hguard⟩ := Option.bind_eq_some_iff.mp hi
      rw [hj, (Option.guard_eq_some_iff.mp hguard).1]
    simp only [hi, hall, hlive, or_true, iff_true]
    exact ⟨rfl, Or.inl rfl⟩
  · have hnone : (chain.take (CMS_MAX_ZVTE_CHAIN_LENGTH - 1)).findIdx? (·.isLive serverName) = none := by
      apply List.findIdx?_eq_none_iff.mpr
      intro zvte hmem
      apply Bool.eq_false_iff.mpr
      exact fun htrue => hlive ⟨zvte, hmem, htrue⟩
    by_cases hroom : chain.length < CMS_MAX_ZVTE_CHAIN_LENGTH
    · have hall : chain.take (CMS_MAX_ZVTE_CHAIN_LENGTH - 1) = chain :=
        List.take_of_length_le (by omega)
      rw [hall] at hnone ⊢
      simp only [hnone, hroom, if_true, true_or, iff_true]
      exact ⟨rfl, Or.inl rfl⟩
    · -- the routine gives up, which it must not
      simp only [hnone, hroom, hlive, if_false, or_self, iff_false, not_and]
      intro heq
      have hloop : Lookup.ofRoutine (none, RSN_CMSLOOKUP_LOOP) = .loop := rfl
      rw [hloop] at heq
      rw [heq]
      rintro (hfirst | ⟨-, hlong⟩)
      · cases hfind : chain.findIdx? (·.isLive serverName) with
        | none =>
          rw [hfind] at hfirst
          cases hfirst
        | some i =>
          rw [hfind] at hfirst
          cases hfirst
      · omega

end Agreement

section Runs

variable {serverName : CrossMemoryServerName} {chain : Chain} {zvt : Table}

theorem ofServer_setVersion {zvte : ZVTEntry} (h : zvte.OfServer) :
    (zvte.setVersion CROSS_MEMORY_SERVER_DISCARDED_VERSION).OfServer := by
  obtain ⟨globalArea, hanchor, heyecatcher, -⟩ := h
  refine ⟨{ globalArea with version := CROSS_MEMORY_SERVER_DISCARDED_VERSION }, ?_,
    heyecatcher, Or.inr rfl⟩
  rw [ZVTEntry.setVersion, hanchor]
  rfl

theorem ofServer_setServerName {zvte : ZVTEntry} (h : zvte.OfServer) :
    (zvte.setServerName serverName).OfServer := by
  obtain ⟨globalArea, hanchor, heyecatcher, hversion⟩ := h
  refine ⟨{ globalArea with serverName := serverName }, ?_, heyecatcher, hversion⟩
  rw [ZVTEntry.setServerName, hanchor]
  rfl

theorem WellFormed.modify {f : ZVTEntry → ZVTEntry} (hf : ∀ zvte, zvte.OfServer → (f zvte).OfServer)
    (h : WellFormed chain) (i : ℕ) : WellFormed (chain.modify i f) where
  anchors := by
    intro zvte hmem
    obtain ⟨j, hj, rfl⟩ := List.mem_iff_getElem.mp hmem
    have hlt : j < chain.length := by rwa [List.length_modify] at hj
    have hold := h.anchors _ (List.getElem_mem hlt)
    rw [List.getElem_modify]
    split_ifs
    · exact hf _ hold
    · exact hold
  length_le := by
    rw [List.length_modify]
    exact h.length_le

theorem wellFormed_discard (h : WellFormed (zvt.getD [])) :
    WellFormed ((discardGlobalResources serverName zvt).getD []) := by
  unfold discardGlobalResources
  split
  · exact h
  · cases zvt with
    | none => exact h
    | some chain => exact WellFormed.modify (fun _ => ofServer_setVersion) h _

/-- An area is added only to a chain that has room. -/
theorem wellFormed_allocate (h : WellFormed chain) :
    WellFormed ((allocateGlobalResources serverName (some chain)).2.getD []) := by
  rw [allocateGlobalResources, zvtInit]
  simp only
  rw [h.cmsGetGlobalArea_eq]
  cases chain.findIdx? (·.isLive serverName) with
  | some i => exact WellFormed.modify (fun _ => ofServer_setServerName) h i
  | none =>
    by_cases hroom : chain.length < CMS_MAX_ZVTE_CHAIN_LENGTH
    · have hadded : WellFormed (⟨some newGlobalArea⟩ :: chain) := by
        constructor
        · rw [List.forall_mem_cons]
          exact ⟨⟨newGlobalArea, rfl, rfl, Or.inl rfl⟩, h.anchors⟩
        · rw [List.length_cons]
          omega
      simp only [if_pos hroom]
      exact WellFormed.modify (fun _ => ofServer_setServerName) hadded 0
    · simp only [if_neg hroom]
      exact h

theorem wellFormed_start (start : ServerStart) (h : WellFormed (zvt.getD [])) :
    WellFormed ((startServer zvt start).getD []) := by
  have hcold : WellFormed
      ((if start.coldStart then discardGlobalResources start.serverName zvt else zvt).getD []) := by
    split_ifs
    · exact wellFormed_discard h
    · exact h
  have hinit (zvt : Table) : allocateGlobalResources start.serverName zvt =
      allocateGlobalResources start.serverName (some (zvt.getD [])) := by
    cases zvt <;> rfl
  unfold startServer
  simp only
  rw [hinit]
  exact wellFormed_allocate hcold

theorem wellFormed_foldl (starts : List ServerStart) (h : WellFormed (zvt.getD [])) :
    WellFormed ((starts.foldl startServer zvt).getD []) := by
  induction starts generalizing zvt with
  | nil => exact h
  | cons start starts ih => exact ih (wellFormed_start start h)

/-- Whatever servers are started, their chain never has more entries than are looked at. -/
theorem wellFormed_after (starts : List ServerStart) : WellFormed ((tableAfter starts).getD []) := by
  apply wellFormed_foldl
  exact ⟨fun _ hmem => absurd hmem List.not_mem_nil, Nat.zero_le _⟩

/-- The look-ups agree if and only if there is room in the chain, or a live entry before its last. -/
theorem lookups_agree_iff (starts : List ServerStart) (serverName : CrossMemoryServerName) :
    LookupsAgree (tableAfter starts) serverName ↔
      ((tableAfter starts).getD []).length < CMS_MAX_ZVTE_CHAIN_LENGTH ∨
        ∃ zvte ∈ ((tableAfter starts).getD []).take (CMS_MAX_ZVTE_CHAIN_LENGTH - 1),
          zvte.isLive serverName = true := by
  have h := wellFormed_after starts
  cases htable : tableAfter starts with
  | none =>
    have hagree : LookupsAgree none serverName := ⟨rfl, Or.inl rfl⟩
    exact iff_of_true hagree (Or.inl (by decide))
  | some chain =>
    rw [htable] at h
    exact h.agree_iff

end Runs

section ColdStarts

def nameA : CrossMemoryServerName := cmsMakeServerName (.ofBytes (Ebcdic.literal "ZWESIS_A"))

def nameB : CrossMemoryServerName := cmsMakeServerName (.ofBytes (Ebcdic.literal "ZWESIS_B"))

def entryOf (serverName : CrossMemoryServerName) (version : BitVec 32) : ZVTEntry :=
  ⟨some ⟨CMS_GLOBAL_AREA_EYECATCHER, version, serverName⟩⟩

/-- The chain after cold starts of the second server, which leave a discarded entry each. -/
def chainOf (discarded : ℕ) : Chain :=
  entryOf nameB CROSS_MEMORY_SERVER_VERSION ::
    (List.replicate discarded (entryOf nameB CROSS_MEMORY_SERVER_DISCARDED_VERSION) ++
      [entryOf nameA CROSS_MEMORY_SERVER_VERSION])

theorem length_chainOf (discarded : ℕ) : (chainOf discarded).length = discarded + 2 := by
  rw [chainOf, List.length_cons, List.length_append, List.length_replicate, List.length_singleton]

theorem wellFormed_chainOf {discarded : ℕ} (h : discarded + 2 ≤ CMS_MAX_ZVTE_CHAIN_LENGTH) :
    WellFormed (chainOf discarded) := by
  constructor
  · intro zvte hmem
    rcases List.mem_cons.mp hmem with rfl | hmem
    · exact ⟨_, rfl, rfl, Or.inl rfl⟩
    · rcases List.mem_append.mp hmem with hmem | hmem
      · obtain rfl := List.eq_of_mem_replicate hmem
        exact ⟨_, rfl, rfl, Or.inr rfl⟩
      · obtain rfl := List.mem_singleton.mp hmem
        exact ⟨_, rfl, rfl, Or.inl rfl⟩
  · rw [length_chainOf]
    exact h

theorem not_live_chainOf (discarded : ℕ) {zvte : ZVTEntry}
    (h : zvte ∈ List.replicate discarded (entryOf nameB CROSS_MEMORY_SERVER_DISCARDED_VERSION) ++
      [entryOf nameA CROSS_MEMORY_SERVER_VERSION]) : zvte.isLive nameB = false := by
  rcases List.mem_append.mp h with h | h
  · rw [List.eq_of_mem_replicate h]
    decide
  · rw [List.mem_singleton.mp h]
    decide

theorem start_chainOf {discarded : ℕ} (h : discarded + 2 < CMS_MAX_ZVTE_CHAIN_LENGTH) :
    startServer (some (chainOf discarded)) ⟨nameB, true⟩ = some (chainOf (discarded + 1)) := by
  have hlive : (entryOf nameB CROSS_MEMORY_SERVER_VERSION).isLive nameB = true := by decide
  have hfound : cmsGetGlobalArea nameB (some (chainOf discarded)) = (RC_CMS_OK, some 0) := by
    rw [(wellFormed_chainOf h.le).cmsGetGlobalArea_eq, chainOf, List.findIdx?_cons, if_pos hlive]
  have hdiscard : discardGlobalResources nameB (some (chainOf discarded)) =
      some (List.replicate (discarded + 1) (entryOf nameB CROSS_MEMORY_SERVER_DISCARDED_VERSION) ++
        [entryOf nameA CROSS_MEMORY_SERVER_VERSION]) := by
    rw [discardGlobalResources, hfound]
    rfl
  have hwell : WellFormed
      (List.replicate (discarded + 1) (entryOf nameB CROSS_MEMORY_SERVER_DISCARDED_VERSION) ++
        [entryOf nameA CROSS_MEMORY_SERVER_VERSION]) := by
    have hdiscarded := @wellFormed_discard nameB (some (chainOf discarded)) (wellFormed_chainOf h.le)
    rw [hdiscard] at hdiscarded
    exact hdiscarded
  have hnone : (List.replicate (discarded + 1)
      (entryOf nameB CROSS_MEMORY_SERVER_DISCARDED_VERSION) ++
        [entryOf nameA CROSS_MEMORY_SERVER_VERSION]).findIdx? (·.isLive nameB) = none :=
    List.findIdx?_eq_none_iff.mpr fun _ hmem => not_live_chainOf (discarded + 1) hmem
  have hroom : (List.replicate (discarded + 1)
      (entryOf nameB CROSS_MEMORY_SERVER_DISCARDED_VERSION) ++
        [entryOf nameA CROSS_MEMORY_SERVER_VERSION]).length < CMS_MAX_ZVTE_CHAIN_LENGTH := by
    rw [List.length_append, List.length_replicate, List.length_singleton]
    exact h
  unfold startServer
  simp only [if_true]
  rw [hdiscard, allocateGlobalResources, zvtInit]
  simp only
  rw [hwell.cmsGetGlobalArea_eq, hnone]
  simp only [if_pos hroom]
  rfl

theorem tableAfter_coldStarts {n : ℕ} (h : n + 2 ≤ CMS_MAX_ZVTE_CHAIN_LENGTH) :
    tableAfter (⟨nameA, false⟩ :: List.replicate (n + 1) ⟨nameB, true⟩) = some (chainOf n) := by
  induction n with
  | zero => decide
  | succ n ih =>
    have hlt : n + 2 < CMS_MAX_ZVTE_CHAIN_LENGTH := by omega
    rw [List.replicate_succ', ← List.cons_append, tableAfter, List.foldl_append]
    change startServer (tableAfter (⟨nameA, false⟩ :: List.replicate (n + 1) ⟨nameB, true⟩)) _ = _
    rw [ih (by omega), start_chainOf hlt]

/-- The first of two servers stays, and the second one is started cold 127 times. -/
theorem not_lookups_agree : ¬ ∀ (starts : List ServerStart) (serverName : CrossMemoryServerName),
    LookupsAgree (tableAfter starts) serverName := by
  intro h
  have hagree := h (⟨nameA, false⟩ :: List.replicate 127 ⟨nameB, true⟩) nameA
  have hfull : 126 + 2 = CMS_MAX_ZVTE_CHAIN_LENGTH := rfl
  rw [tableAfter_coldStarts hfull.le, (wellFormed_chainOf hfull.le).agree_iff] at hagree
  rcases hagree with hroom | ⟨zvte, hmem, hlive⟩
  · rw [length_chainOf, hfull] at hroom
    exact absurd hroom (Nat.lt_irrefl _)
  · have htake : (chainOf 126).take (CMS_MAX_ZVTE_CHAIN_LENGTH - 1) =
        entryOf nameB CROSS_MEMORY_SERVER_VERSION ::
          List.replicate 126 (entryOf nameB CROSS_MEMORY_SERVER_DISCARDED_VERSION) := by
      have hlength : CMS_MAX_ZVTE_CHAIN_LENGTH - 1 = 126 + 1 := rfl
      rw [chainOf, hlength, List.take_succ_cons]
      apply congrArg (List.cons _)
      exact List.take_left' List.length_replicate
    rw [htake] at hmem
    rcases List.mem_cons.mp hmem with rfl | hmem
    · exact absurd hlive (by decide)
    · rw [List.eq_of_mem_replicate hmem] at hlive
      exact absurd hlive (by decide)

end ColdStarts

end ZVT
end ZoweCommon
