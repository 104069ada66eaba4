import ZoweCommon.Http.SessionToken
import ZoweCommon.Lib.Segments

/-! Which service a request goes to. -/
namespace ZoweCommon
namespace Http
namespace Dispatch

open Segments
open Utils

def SLASH : Byte := 0x61
def STAR : List Byte := Ebcdic.literal "*"
def STARS : List Byte := Ebcdic.literal "**"

def MAX_URL_PARTS : ℕ := 100
def NORMALIZED_PART_LENGTH : ℕ := 256
def SERVICE_MATCH_WILD_RIGHT : BitVec 32 := 1

structure HttpService where
  name : CString
  urlMask : CString
  parsedMaskPartCount : ℕ
  parsedMaskParts : List (List Byte)
  matchFlags : BitVec 32
  deriving DecidableEq

/-- A part copied to memory of its own, with a terminator. -/
def urlMaskPart (part : List Byte) : Exec (List Byte) :=
  if part.length < NORMALIZED_PART_LENGTH then return part else throw .undefinedBehaviour

def urlMaskParts (urlMask : List Byte) : ℕ → ℕ → List (List Byte) → Exec (List (List Byte))
  | 0, _, _ => throw .nonTermination
  | fuel + 1, start, parts =>
    match Utils.indexOf urlMask SLASH start with
    | some slashPos => do
      if MAX_URL_PARTS ≤ parts.length then throw .undefinedBehaviour
      let part ← urlMaskPart ((urlMask.drop start).take (slashPos - start))
      urlMaskParts urlMask fuel (slashPos + 1) (parts ++ [part])
    | none =>
      if start < urlMask.length then do
        if MAX_URL_PARTS ≤ parts.length then throw .undefinedBehaviour
        let part ← urlMaskPart (urlMask.drop start)
        return parts ++ [part]
      else return parts

def parseURLMask (service : HttpService) (urlMask : CString) : Exec HttpService := do
  let start := if urlMask.bytes.head? = some SLASH then 1 else 0
  let parts ← if urlMask.bytes = [SLASH] then pure []
    else urlMaskParts urlMask.bytes (urlMask.strlen + 1) start []
  let wildRight := parts.getLast? = some STARS
  return { service with
    urlMask := urlMask
    parsedMaskPartCount := if wildRight then parts.length - 1 else parts.length
    parsedMaskParts := parts
    matchFlags := if wildRight then SERVICE_MATCH_WILD_RIGHT else 0 }

def registerHttpService (serviceList : List HttpService) (service : HttpService) :
    List HttpService :=
  serviceList ++ [service]

/-- What is left of the path if the parts match. There is a part of the path for every one. -/
def matchParts : List (List Byte) → List (List Byte) → Option (List (List Byte))
  | [], partsList => some partsList
  | desiredPart :: desiredParts, part :: partsList =>
    if desiredPart = STAR ∨ desiredPart = part then matchParts desiredParts partsList else none
  | _ :: _, [] => none

def findFrom (path : List (List Byte)) : List HttpService → Option HttpService
  | [] => none
  | service :: services =>
    if service.parsedMaskPartCount = 0 then
      if path.length = 0 then some service else findFrom path services
    else if service.parsedMaskPartCount ≤ path.length then
      match matchParts (service.parsedMaskParts.take service.parsedMaskPartCount) path with
      | some [] => some service
      | some (_ :: _) =>
        if service.matchFlags &&& SERVICE_MATCH_WILD_RIGHT ≠ 0 then some service else none
      | none => findFrom path services
    else findFrom path services

/-- The parsed path may be missing. -/
def findHttpService (serviceList : List HttpService) (parsedFile : Option (List CString)) :
    Option HttpService :=
  findFrom ((parsedFile.getD []).map CString.bytes) serviceList

def registerAll (services : List (HttpService × CString)) : Exec (List HttpService) :=
  services.foldlM (fun serviceList service => do
    return registerHttpService serviceList (← parseURLMask service.1 service.2)) []

/-! What masks say -/

inductive MatchesPath : List (List Byte) → List (List Byte) → Prop
  | done : MatchesPath [] []
  | anyParts (path) : MatchesPath [STARS] path
  | anyPart {mask path} (part) : MatchesPath mask path → MatchesPath (STAR :: mask) (part :: path)
  | samePart {mask path} (part) : MatchesPath mask path → MatchesPath (part :: mask) (part :: path)

def maskParts (urlMask : CString) : List (List Byte) :=
  segments SLASH (if urlMask.bytes.head? = some SLASH then urlMask.bytes.tail else urlMask.bytes)

def Matches (urlMask : CString) (path : List (List Byte)) : Prop :=
  MatchesPath (maskParts urlMask) path

def pathParts (parsedFile : Option (List CString)) : List (List Byte) :=
  (parsedFile.getD []).map CString.bytes

open Classical in
/-- The masks can be parsed, and the first service with a mask for the path is found. -/
def FindsFirst (services : List (HttpService × CString)) (parsedFile : Option (List CString)) :
    Prop :=
  ∃ serviceList, registerAll services = .ok serviceList ∧
    findHttpService serviceList parsedFile =
      serviceList.find? fun service => Matches service.urlMask (pathParts parsedFile)

/-! Which masks and which orders are good -/

/-- The parts have their place in the memory for them. -/
def Fits (urlMask : CString) : Prop :=
  (maskParts urlMask).length ≤ MAX_URL_PARTS ∧
    ∀ part ∈ maskParts urlMask, part.length < NORMALIZED_PART_LENGTH

/-- The mask is for some first parts only, and says nothing of further ones. -/
def Blocks (urlMask : CString) (path : List (List Byte)) : Prop :=
  maskParts urlMask ≠ [] ∧ (maskParts urlMask).getLast? ≠ some STARS ∧
    ∃ front rest, path = front ++ rest ∧ rest ≠ [] ∧ MatchesPath (maskParts urlMask) front

/-- Nothing keeps a search from the first mask for the path. -/
def Reaches (urlMasks : List CString) (path : List (List Byte)) : Prop :=
  ∀ before urlMask after, urlMasks = before ++ urlMask :: after → Matches urlMask path →
    (∀ other ∈ before, ¬ Matches other path) →
      (∀ other ∈ before, ¬ Blocks other path) ∧ (maskParts urlMask = [STARS] → path = [])

section Mask

variable {urlMask : List Byte}

theorem slash_cases (text : List Byte) :
    (Utils.indexOf text SLASH 0 = none ∧ SLASH ∉ text) ∨
    ∃ part rest, text = part ++ SLASH :: rest ∧ SLASH ∉ part ∧
      Utils.indexOf text SLASH 0 = some part.length := by
  cases h : Utils.indexOf text SLASH 0 with
  | none => exact Or.inl ⟨rfl, indexOf_zero_none h⟩
  | some i =>
    obtain ⟨part, rest, htext, hpart, rfl⟩ := indexOf_zero_some h
    exact Or.inr ⟨part, rest, htext, hpart, rfl⟩

theorem urlMaskPart_eq (part : List Byte) :
    urlMaskPart part = if part.length < NORMALIZED_PART_LENGTH then .ok part
      else .error .undefinedBehaviour := rfl

/-- What the parts from a position on do to those that are there. -/
theorem urlMaskParts_eq {fuel : ℕ} {start : ℕ} {parts : List (List Byte)}
    (hfuel : urlMask.length < fuel + start) (hstart : start ≤ urlMask.length)
    (hparts : parts.length ≤ MAX_URL_PARTS) :
    urlMaskParts urlMask fuel start parts =
      if parts.length + (segments SLASH (urlMask.drop start)).length ≤ MAX_URL_PARTS ∧
          ∀ part ∈ segments SLASH (urlMask.drop start), part.length < NORMALIZED_PART_LENGTH then
        .ok (parts ++ segments SLASH (urlMask.drop start))
      else .error .undefinedBehaviour := by
  induction fuel generalizing start parts with
  | zero => omega
  | succ fuel ih =>
    rw [urlMaskParts, indexOf_from]
    rcases slash_cases (urlMask.drop start) with ⟨hnone, hnot⟩ | ⟨part, rest, htext, hpart, hsome⟩
    · rw [hnone]
      change (if start < urlMask.length then _ else _) = _
      by_cases hend : start < urlMask.length
      · have hne : urlMask.drop start ≠ [] := by simpa using hend
        rw [if_pos hend, segments_of_notMem hnot hne]
        by_cases hroom : MAX_URL_PARTS ≤ parts.length
        · rw [if_pos hroom, if_neg]
          · rfl
          · simp only [List.length_singleton]
            omega
        · rw [if_neg hroom, urlMaskPart_eq]
          by_cases hlen : (urlMask.drop start).length < NORMALIZED_PART_LENGTH
          · rw [if_pos hlen, if_pos]
            · rfl
            · refine ⟨?_, by simpa using hlen⟩
              simp only [List.length_singleton]
              omega
          · rw [if_neg hlen, if_neg]
            · rfl
            · intro h
              exact hlen (h.2 _ List.mem_cons_self)
      · have hnil : urlMask.drop start = [] := List.drop_eq_nil_of_le (by omega)
        rw [if_neg hend, hnil, segments_nil, if_pos (by simpa using hparts), List.append_nil]
        rfl
    · have hdrop : urlMask.drop (start + part.length + 1) = rest := by
        rw [Nat.add_assoc, ← List.drop_drop, htext, ← List.drop_drop, List.drop_left]
        rfl
      have hlength : start + part.length + 1 ≤ urlMask.length := by
        have := congrArg List.length htext
        simp only [List.length_drop, List.length_append, List.length_cons] at this
        omega
      rw [hsome, htext, segments_append_cons hpart]
      simp only [Option.map_some, List.length_cons, List.forall_mem_cons]
      rw [Nat.add_sub_cancel_left, List.take_left, urlMaskPart_eq]
      by_cases hroom : MAX_URL_PARTS ≤ parts.length
      · rw [if_pos hroom]
        change Except.error _ = _
        rw [if_neg (by omega)]
      · rw [if_neg hroom]
        by_cases hlen : part.length < NORMALIZED_PART_LENGTH
        · have hparts' : (parts ++ [part]).length ≤ MAX_URL_PARTS := by
            rw [List.length_append, List.length_singleton]
            omega
          have hrest := @ih (start + part.length + 1) (parts ++ [part]) (by omega) hlength hparts'
          rw [hdrop] at hrest
          rw [if_pos hlen]
          refine hrest.trans ?_
          simp only [List.length_append, List.length_singleton, List.append_assoc,
            List.singleton_append, Nat.add_assoc, Nat.add_comm 1, hlen, true_and]
        · rw [if_neg hlen, if_neg (fun h => hlen h.2.1)]
          rfl

end Mask

def parsed (service : HttpService) (urlMask : CString) : HttpService :=
  { service with
    urlMask := urlMask
    parsedMaskPartCount :=
      if (maskParts urlMask).getLast? = some STARS then (maskParts urlMask).length - 1
      else (maskParts urlMask).length
    parsedMaskParts := maskParts urlMask
    matchFlags :=
      if (maskParts urlMask).getLast? = some STARS then SERVICE_MATCH_WILD_RIGHT else 0 }

theorem drop_start (urlMask : CString) :
    urlMask.bytes.drop (if urlMask.bytes.head? = some SLASH then 1 else 0) =
      if urlMask.bytes.head? = some SLASH then urlMask.bytes.tail else urlMask.bytes := by
  split_ifs
  · exact List.drop_one
  · rfl

open Classical in
theorem parseURLMask_eq (service : HttpService) (urlMask : CString) :
    parseURLMask service urlMask =
      if Fits urlMask then .ok (parsed service urlMask) else .error .undefinedBehaviour := by
  unfold parseURLMask
  by_cases hslash : urlMask.bytes = [SLASH]
  · have hparts : maskParts urlMask = [] := by
      rw [maskParts, hslash, if_pos List.head?_cons]
      exact segments_nil
    have hfits : Fits urlMask := by
      rw [Fits, hparts]
      exact ⟨Nat.zero_le _, List.forall_mem_nil _⟩
    rw [if_pos hslash, if_pos hfits, parsed, hparts]
    rfl
  · have hstart : (if urlMask.bytes.head? = some SLASH then 1 else 0) ≤ urlMask.bytes.length := by
      split_ifs with hhead
      · exact List.length_pos_of_mem (List.mem_of_mem_head? hhead)
      · exact Nat.zero_le _
    have hrun := @urlMaskParts_eq urlMask.bytes (urlMask.strlen + 1) _ []
      (by rw [CString.strlen]; omega) hstart (Nat.zero_le _)
    rw [drop_start, List.length_nil, Nat.zero_add, List.nil_append] at hrun
    rw [if_neg hslash]
    by_cases hfits : Fits urlMask
    · rw [if_pos hfits, hrun.trans (if_pos hfits)]
      rfl
    · rw [if_neg hfits, hrun.trans (if_neg hfits)]
      rfl

theorem registerAll_eq (services : List (HttpService × CString))
    (h : ∀ service ∈ services, Fits service.2) :
    registerAll services = .ok (services.map fun service => parsed service.1 service.2) := by
  have hrun : ∀ serviceList : List HttpService,
      services.foldlM (fun serviceList service => do
        return registerHttpService serviceList (← parseURLMask service.1 service.2)) serviceList =
      .ok (serviceList ++ services.map fun service => parsed service.1 service.2) := by
    induction services with
    | nil => simp
    | cons service services ih =>
      intro serviceList
      have hfits := h service List.mem_cons_self
      rw [List.foldlM_cons, parseURLMask_eq, if_pos hfits]
      refine (ih (fun other hother => h other (List.mem_cons_of_mem _ hother)) _).trans ?_
      rw [registerHttpService, List.append_assoc]
      rfl
  exact hrun []

theorem fits_of_registerAll {services : List (HttpService × CString)}
    {serviceList : List HttpService} (h : registerAll services = .ok serviceList) :
    ∀ service ∈ services, Fits service.2 := by
  have hrun : ∀ before serviceList : List HttpService,
      services.foldlM (fun serviceList service => do
        return registerHttpService serviceList (← parseURLMask service.1 service.2)) before =
      .ok serviceList → ∀ service ∈ services, Fits service.2 := by
    clear h
    induction services with
    | nil => exact fun _ _ _ => List.forall_mem_nil _
    | cons service services ih =>
      intro before serviceList hrun
      rw [List.foldlM_cons, parseURLMask_eq] at hrun
      by_cases hfits : Fits service.2
      · rw [if_pos hfits] at hrun
        exact List.forall_mem_cons.mpr ⟨hfits, ih _ _ hrun⟩
      · rw [if_neg hfits] at hrun
        cases hrun
  exact hrun [] serviceList h

section Match

variable {mask path rest : List (List Byte)}

theorem matchParts_append (h : MatchesPath mask path) (hlast : mask.getLast? ≠ some STARS)
    (rest : List (List Byte)) : matchParts mask (path ++ rest) = some rest := by
  induction h with
  | done => rfl
  | anyParts path => exact absurd rfl hlast
  | @anyPart mask path part h ih =>
    rw [List.cons_append, matchParts, if_pos (Or.inl rfl)]
    apply ih
    intro hmask
    exact hlast (by rw [List.getLast?_cons, hmask]; rfl)
  | @samePart mask path part h ih =>
    rw [List.cons_append, matchParts, if_pos (Or.inr rfl)]
    apply ih
    intro hmask
    exact hlast (by rw [List.getLast?_cons, hmask]; rfl)

theorem matchesPath_of_matchParts (h : matchParts mask path = some rest) :
    ∃ front, path = front ++ rest ∧ MatchesPath mask front := by
  induction mask generalizing path with
  | nil => exact ⟨[], Option.some.inj h, .done⟩
  | cons desiredPart mask ih =>
    cases path with
    | nil => cases h
    | cons part path =>
      rw [matchParts] at h
      split_ifs at h with hpart
      obtain ⟨front, rfl, hfront⟩ := ih h
      refine ⟨part :: front, rfl, ?_⟩
      rcases hpart with rfl | rfl
      · exact .anyPart part hfront
      · exact .samePart desiredPart hfront

/-- With the right wildcard the parts before it decide. -/
theorem matchesPath_stars :
    MatchesPath (mask ++ [STARS]) path ↔ ∃ rest, matchParts mask path = some rest := by
  induction mask generalizing path with
  | nil => exact ⟨fun _ => ⟨path, rfl⟩, fun _ => .anyParts path⟩
  | cons desiredPart mask ih =>
    cases path with
    | nil =>
      constructor
      · intro h
        generalize hmask : desiredPart :: mask ++ [STARS] = parts at h
        cases h with
        | done => exact absurd hmask (List.cons_ne_nil _ _)
        | anyParts => exact absurd (congrArg List.length hmask) (by simp)
      · rintro ⟨rest, h⟩
        cases h
    | cons part path =>
      constructor
      · intro h
        generalize hmask : desiredPart :: mask ++ [STARS] = parts at h
        cases h with
        | anyParts => exact absurd (congrArg List.length hmask) (by simp)
        | anyPart part h =>
          obtain ⟨rfl, rfl⟩ := List.cons.inj hmask
          obtain ⟨rest, hrest⟩ := ih.mp h
          exact ⟨rest, (if_pos (Or.inl rfl)).trans hrest⟩
        | samePart part h =>
          obtain ⟨rfl, rfl⟩ := List.cons.inj hmask
          obtain ⟨rest, hrest⟩ := ih.mp h
          exact ⟨rest, (if_pos (Or.inr rfl)).trans hrest⟩
      · rintro ⟨rest, h⟩
        rw [matchParts] at h
        split_ifs at h with hpart
        have hrest := ih.mpr ⟨rest, h⟩
        rcases hpart with rfl | rfl
        · exact .anyPart part hrest
        · exact .samePart desiredPart hrest

theorem matchesPath_exact (hlast : mask.getLast? ≠ some STARS) :
    MatchesPath mask path ↔ matchParts mask path = some [] := by
  constructor
  · intro h
    have hparts := matchParts_append h hlast []
    rwa [List.append_nil] at hparts
  · intro h
    obtain ⟨front, rfl, hfront⟩ := matchesPath_of_matchParts h
    rwa [List.append_nil]

theorem length_of_matchParts (h : matchParts mask path = some rest) :
    mask.length + rest.length = path.length := by
  induction mask generalizing path with
  | nil => rw [Option.some.inj h, List.length_nil, Nat.zero_add]
  | cons desiredPart mask ih =>
    cases path with
    | nil => cases h
    | cons part path =>
      rw [matchParts] at h
      split_ifs at h
      have := ih h
      simp only [List.length_cons]
      omega

end Match

section Search

variable {service : HttpService} {urlMask : CString} {path : List (List Byte)}
  {services : List HttpService}

theorem findFrom_step {mask : List (List Byte)}
    (hcount : service.parsedMaskPartCount = mask.length)
    (htake : service.parsedMaskParts.take mask.length = mask) (hmask : mask ≠ []) :
    findFrom path (service :: services) =
      match matchParts mask path with
      | some [] => some service
      | some (_ :: _) =>
        if service.matchFlags &&& SERVICE_MATCH_WILD_RIGHT ≠ 0 then some service else none
      | none => findFrom path services := by
  have hne : mask.length ≠ 0 := by simpa using hmask
  rw [findFrom, hcount, htake, if_neg hne]
  by_cases hlen : mask.length ≤ path.length
  · rw [if_pos hlen]
  · rw [if_neg hlen]
    cases h : matchParts mask path with
    | none => rfl
    | some rest =>
      have := length_of_matchParts h
      omega

theorem findFrom_noParts (hcount : service.parsedMaskPartCount = 0) :
    findFrom path (service :: services) =
      if path = [] then some service else findFrom path services := by
  rw [findFrom, if_pos hcount]
  simp only [List.length_eq_zero_iff]

variable (service) in
theorem parsed_stars (front : List (List Byte)) (h : maskParts urlMask = front ++ [STARS]) :
    (parsed service urlMask).parsedMaskPartCount = front.length ∧
      (parsed service urlMask).parsedMaskParts.take front.length = front ∧
      (parsed service urlMask).matchFlags = SERVICE_MATCH_WILD_RIGHT := by
  have hlast : (front ++ [STARS]).getLast? = some STARS := List.getLast?_concat
  simp only [parsed, h, hlast, if_true, List.length_append, List.length_singleton,
    Nat.add_sub_cancel, List.take_left, and_self]

variable (service) in
theorem parsed_exact (h : (maskParts urlMask).getLast? ≠ some STARS) :
    (parsed service urlMask).parsedMaskPartCount = (maskParts urlMask).length ∧
      (parsed service urlMask).parsedMaskParts.take (maskParts urlMask).length =
        maskParts urlMask ∧
      (parsed service urlMask).matchFlags = 0 := by
  simp only [parsed, h, if_false, List.take_length, and_self]

/-- The mask of any further parts alone is taken for that of no parts. -/
theorem findFrom_stars (h : maskParts urlMask = [STARS]) :
    findFrom path (parsed service urlMask :: services) =
      if path = [] then some (parsed service urlMask) else findFrom path services :=
  findFrom_noParts (parsed_stars service [] h).1

theorem findFrom_matches (h : Matches urlMask path) (hstars : maskParts urlMask = [STARS] → path = []) :
    findFrom path (parsed service urlMask :: services) = some (parsed service urlMask) := by
  by_cases hlast : (maskParts urlMask).getLast? = some STARS
  · obtain ⟨front, hfront⟩ := List.getLast?_eq_some_iff.mp hlast
    by_cases hnil : front = []
    · subst hnil
      rw [findFrom_stars hfront, if_pos (hstars hfront)]
    · obtain ⟨hcount, htake, hflags⟩ := parsed_stars service front hfront
      rw [Matches, hfront] at h
      obtain ⟨rest, hrest⟩ := matchesPath_stars.mp h
      rw [findFrom_step hcount htake hnil, hrest, hflags]
      cases rest <;> rfl
  · obtain ⟨hcount, htake, -⟩ := parsed_exact service hlast
    have hmatch := (matchesPath_exact hlast).mp h
    by_cases hnil : maskParts urlMask = []
    · rw [hnil] at hmatch hcount
      rw [findFrom_noParts hcount, if_pos (Option.some.inj hmatch)]
    · rw [findFrom_step hcount htake hnil, hmatch]

theorem findFrom_blocks (h : Blocks urlMask path) :
    findFrom path (parsed service urlMask :: services) = none := by
  obtain ⟨hnil, hlast, front, rest, rfl, hrest, hmatch⟩ := h
  obtain ⟨hcount, htake, hflags⟩ := parsed_exact service hlast
  rw [findFrom_step hcount htake hnil, matchParts_append hmatch hlast, hflags]
  cases rest with
  | nil => exact absurd rfl hrest
  | cons part rest => rfl

theorem findFrom_next (h : ¬ Matches urlMask path) (hblocks : ¬ Blocks urlMask path) :
    findFrom path (parsed service urlMask :: services) = findFrom path services := by
  by_cases hlast : (maskParts urlMask).getLast? = some STARS
  · obtain ⟨front, hfront⟩ := List.getLast?_eq_some_iff.mp hlast
    rw [Matches, hfront] at h
    by_cases hnil : front = []
    · subst hnil
      exact absurd (MatchesPath.anyParts path) h
    · obtain ⟨hcount, htake, -⟩ := parsed_stars service front hfront
      rw [findFrom_step hcount htake hnil]
      cases hmatch : matchParts front path with
      | none => rfl
      | some rest => exact absurd (matchesPath_stars.mpr ⟨rest, hmatch⟩) h
  · obtain ⟨hcount, htake, -⟩ := parsed_exact service hlast
    have hne : matchParts (maskParts urlMask) path ≠ some [] :=
      fun hmatch => h ((matchesPath_exact hlast).mpr hmatch)
    by_cases hnil : maskParts urlMask = []
    · rw [hnil] at hne hcount
      rw [findFrom_noParts hcount, if_neg (fun hpath => hne (by rw [hpath]; rfl))]
    · rw [findFrom_step hcount htake hnil]
      cases hmatch : matchParts (maskParts urlMask) path with
      | none => rfl
      | some rest =>
        obtain ⟨front, hpath, hfront⟩ := matchesPath_of_matchParts hmatch
        have hrest : rest ≠ [] := fun hrest => hne (hrest ▸ hmatch)
        exact absurd ⟨hnil, hlast, front, rest, hpath, hrest, hfront⟩ hblocks

theorem count_of_findFrom {found : HttpService} (h : findFrom path services = some found)
    (hpath : path ≠ []) : found.parsedMaskPartCount ≠ 0 := by
  induction services with
  | nil => cases h
  | cons service services ih =>
    by_cases hcount : service.parsedMaskPartCount = 0
    · rw [findFrom_noParts hcount, if_neg hpath] at h
      exact ih h
    · rw [findFrom, if_neg hcount] at h
      by_cases hlen : service.parsedMaskPartCount ≤ path.length
      · rw [if_pos hlen] at h
        split at h
        · exact Option.some.inj h ▸ hcount
        · split_ifs at h
          exact Option.some.inj h ▸ hcount
        · exact ih h
      · rw [if_neg hlen] at h
        exact ih h

theorem reaches_cons_iff {urlMasks : List CString} :
    Reaches (urlMask :: urlMasks) path ↔
      (Matches urlMask path → maskParts urlMask = [STARS] → path = []) ∧
        (¬ Matches urlMask path → Reaches urlMasks path ∧
          (Blocks urlMask path → ∀ other ∈ urlMasks, ¬ Matches other path)) := by
  classical
  constructor
  · intro h
    refine ⟨fun hmatch => (h [] urlMask urlMasks rfl hmatch (List.forall_mem_nil _)).2, ?_⟩
    intro hmatch
    have hrest : ∀ before first after, urlMasks = before ++ first :: after →
        Matches first path → (∀ other ∈ before, ¬ Matches other path) →
        (∀ other ∈ urlMask :: before, ¬ Blocks other path) ∧
          (maskParts first = [STARS] → path = []) := by
      intro before first after hmasks hfirst hbefore
      exact h (urlMask :: before) first after (by rw [hmasks]; rfl) hfirst
        (List.forall_mem_cons.mpr ⟨hmatch, hbefore⟩)
    constructor
    · intro before first after hmasks hfirst hbefore
      obtain ⟨hblocks, hstars⟩ := hrest before first after hmasks hfirst hbefore
      exact ⟨(List.forall_mem_cons.mp hblocks).2, hstars⟩
    · intro hblocks other hother hmatches
      have hsome : (urlMasks.find? fun mask => Matches mask path).isSome :=
        List.find?_isSome.mpr ⟨other, hother, decide_eq_true hmatches⟩
      obtain ⟨first, hfirst⟩ := Option.isSome_iff_exists.mp hsome
      obtain ⟨hmatches, before, after, hmasks, hbefore⟩ := List.find?_eq_some_iff_append.mp hfirst
      have hnone : ∀ other ∈ before, ¬ Matches other path := by simpa using hbefore
      have hfree := (hrest before first after hmasks (of_decide_eq_true hmatches) hnone).1
      exact hfree urlMask List.mem_cons_self hblocks
  · rintro ⟨hhead, htail⟩ before first after hmasks hfirst hbefore
    cases before with
    | nil =>
      obtain ⟨rfl, rfl⟩ := List.cons.inj hmasks
      exact ⟨List.forall_mem_nil _, hhead hfirst⟩
    | cons mask before =>
      obtain ⟨rfl, rfl⟩ := List.cons.inj hmasks
      obtain ⟨hmatch, hbefore⟩ := List.forall_mem_cons.mp hbefore
      obtain ⟨hreaches, hblocks⟩ := htail hmatch
      obtain ⟨hfree, hstars⟩ := hreaches before first after rfl hfirst hbefore
      refine ⟨List.forall_mem_cons.mpr ⟨?_, hfree⟩, hstars⟩
      intro hblock
      exact hblocks hblock first (by simp) hfirst

open Classical in
theorem findFrom_eq_find?_iff (registered : List (HttpService × CString)) :
    findFrom path (registered.map fun service => parsed service.1 service.2) =
        (registered.map fun service => parsed service.1 service.2).find?
          (fun service => Matches service.urlMask path) ↔
      Reaches (registered.map Prod.snd) path := by
  induction registered with
  | nil =>
    refine ⟨fun _ before urlMask after h => ?_, fun _ => rfl⟩
    exact absurd h (by simp)
  | cons service registered ih =>
    obtain ⟨service, urlMask⟩ := service
    let found (service : HttpService) : Bool := decide (Matches service.urlMask path)
    rw [List.map_cons, List.map_cons, reaches_cons_iff]
    change findFrom path (parsed service urlMask :: _) =
      List.find? found (parsed service urlMask :: _) ↔ _
    by_cases hmatch : Matches urlMask path
    · have hfirst : found (parsed service urlMask) = true := decide_eq_true hmatch
      rw [List.find?_cons_of_pos hfirst]
      refine ⟨fun h => ⟨fun _ hstars => ?_, fun hnot => absurd hmatch hnot⟩, fun h => ?_⟩
      · by_contra hpath
        rw [findFrom_stars hstars, if_neg hpath] at h
        exact count_of_findFrom h hpath (parsed_stars service [] hstars).1
      · exact findFrom_matches hmatch (h.1 hmatch)
    · have hfirst : ¬ found (parsed service urlMask) = true := fun h => hmatch (of_decide_eq_true h)
      rw [List.find?_cons_of_neg hfirst]
      by_cases hblocks : Blocks urlMask path
      · rw [findFrom_blocks hblocks, eq_comm, List.find?_eq_none]
        have hnone : (∀ service ∈ registered.map fun service => parsed service.1 service.2,
            ¬ found service = true) ↔ ∀ other ∈ registered.map Prod.snd, ¬ Matches other path := by
          rw [List.forall_mem_map, List.forall_mem_map]
          exact forall₂_congr fun service _ => not_congr decide_eq_true_iff
        rw [hnone]
        refine ⟨fun h => ⟨fun hm => absurd hm hmatch, fun _ => ⟨?_, fun _ => h⟩⟩,
          fun h => (h.2 hmatch).2 hblocks⟩
        intro before first after hmasks hfirst _
        exact absurd hfirst (h first (by rw [hmasks]; simp))
      · rw [findFrom_next hmatch hblocks, ih]
        exact ⟨fun h => ⟨fun hm => absurd hm hmatch, fun _ => ⟨h, fun hb => absurd hb hblocks⟩⟩,
          fun h => (h.2 hmatch).1⟩

end Search

/-- The first service is found if the masks can be parsed and nothing keeps the search from it. -/
theorem findsFirst_iff (services : List (HttpService × CString))
    (parsedFile : Option (List CString)) :
    FindsFirst services parsedFile ↔
      (∀ service ∈ services, Fits service.2) ∧
        Reaches (services.map Prod.snd) (pathParts parsedFile) := by
  constructor
  · rintro ⟨serviceList, hregister, hfind⟩
    have hfits := fits_of_registerAll hregister
    have hlist := Except.ok.inj (hregister.symm.trans (registerAll_eq services hfits))
    rw [hlist] at hfind
    exact ⟨hfits, (findFrom_eq_find?_iff services).mp hfind⟩
  · rintro ⟨hfits, hreaches⟩
    exact ⟨_, registerAll_eq services hfits, (findFrom_eq_find?_iff services).mpr hreaches⟩

def named (name : String) : HttpService where
  name := .ofBytes (Ebcdic.literal name)
  urlMask := .ofBytes []
  parsedMaskPartCount := 0
  parsedMaskParts := []
  matchFlags := 0

/-- A service for `/a` hides one for `/a/b` that is registered after it. -/
theorem not_findsFirst :
    ¬ ∀ services parsedFile, FindsFirst services parsedFile := by
  intro h
  obtain ⟨serviceList, hregister, hfind⟩ := h
    [(named "short", .ofBytes (Ebcdic.literal "/a")), (named "long", .ofBytes (Ebcdic.literal "/a/b"))]
    (some [.ofBytes (Ebcdic.literal "a"), .ofBytes (Ebcdic.literal "b")])
  have hlist := Except.ok.inj (hregister.symm.trans (registerAll_eq _ (fits_of_registerAll hregister)))
  rw [hlist] at hfind
  have hreaches := (findFrom_eq_find?_iff _).mp hfind
  have hblocks : Blocks (.ofBytes (Ebcdic.literal "/a")) [Ebcdic.literal "a", Ebcdic.literal "b"] := by
    refine ⟨by decide, by decide, [Ebcdic.literal "a"], [Ebcdic.literal "b"], rfl, by decide, ?_⟩
    exact .samePart (Ebcdic.literal "a") .done
  have hshort : ¬ Matches (.ofBytes (Ebcdic.literal "/a")) [Ebcdic.literal "a", Ebcdic.literal "b"] := by
    have hlast : (maskParts (.ofBytes (Ebcdic.literal "/a"))).getLast? ≠ some STARS := by decide
    rw [Matches, matchesPath_exact hlast]
    decide
  have hlong : Matches (.ofBytes (Ebcdic.literal "/a/b")) [Ebcdic.literal "a", Ebcdic.literal "b"] :=
    .samePart (Ebcdic.literal "a") (.samePart (Ebcdic.literal "b") .done)
  have hnone := ((reaches_cons_iff.mp hreaches).2 hshort).2 hblocks
  exact hnone _ List.mem_cons_self hlong

end Dispatch
end Http
end ZoweCommon
