import ZoweCommon.Basic.ShortLivedHeap
import ZoweCommon.Basic.Utils
import ZoweCommon.Http.HeaderText
import ZoweCommon.Lib.Segments

/-! How the URI of a request is split into the parts of its path, its query and its fragment. -/
namespace ZoweCommon
namespace Uri

open CString (ofBytes)
open Ebcdic (destructivelyUnasciify)
open Http (nativeChar nativeChar_packed unasciify_eq InTable inTable_cons)
open Segments (segments)

def ASCII_SLASH : Byte := 0x2F

def ASCII_QUESTION : Byte := 0x3F

def ASCII_HASH : Byte := 0x23

/-- The sizes of a `StringList` and of a `StringListElt`. -/
def STRING_LIST_SIZE : ℕ := 32

def STRING_LIST_ELT_SIZE : ℕ := 16

/-- What `parseURI` stores in a request. Strings stand for the pointers to them. -/
structure ParsedUri where
  file : CString
  parsedFile : Option (List CString)
  queryString : Option CString
  queryStringLen : ℕ
  fragmentIdentifier : Option CString

/-- Copy a part, with a terminator, to storage of its own, and append it to the list. -/
def addPart (slh : ShortLivedHeap) (parsedFile : List CString) (part : List Byte) :
    Exec (List CString × ShortLivedHeap) := do
  let (_, slh) ← SLHAlloc slh (part.length + 1)
  let native ← destructivelyUnasciify (part ++ [0])
  let (_, slh) ← SLHAlloc slh STRING_LIST_ELT_SIZE
  return (parsedFile ++ [ofBytes native], slh)

/-- The loop over the slashes, and what is left behind the last of them. `start` is the position
after the previous slash. -/
def splitFile (filePart : List Byte) (start : ℕ) (slh : ShortLivedHeap)
    (parsedFile : List CString) : Exec (List CString × ShortLivedHeap) :=
  match _h : Utils.indexOf filePart ASCII_SLASH start with
  | some slashPos => do
    let (parsedFile, slh) ← addPart slh parsedFile ((filePart.drop start).take (slashPos - start))
    splitFile filePart (slashPos + 1) slh parsedFile
  | none =>
    if filePart.length > start then addPart slh parsedFile (filePart.drop start)
    else return (parsedFile, slh)
termination_by filePart.length - start
decreasing_by
  obtain ⟨i, hi, rfl⟩ := Option.map_eq_some_iff.mp _h
  have hlt := (List.findIdx?_eq_some_iff_getElem.mp hi).1
  rw [List.length_drop] at hlt
  omega

/-- The path, if any storage is made for it, with the query and the fragment: their pointers are
into the URI but for the query that a fragment follows. -/
def filePartOf (slh : ShortLivedHeap) (uri : CString) :
    Exec (CString × Option CString × Option CString × ShortLivedHeap) := do
  let qPos := Utils.indexOf uri.bytes ASCII_QUESTION 0
  let hPos := Utils.indexOf uri.bytes ASCII_HASH (qPos.getD 0)
  if uri.bytes.length = 0 ∨ (uri.bytes.length = 1 ∧ uri.bytes[0]? = some ASCII_SLASH) then
    let (filePart, slh) ← SLHAlloc slh 2
    let slh ← slh.memcpy filePart [ASCII_SLASH, 0]
    return (← slh.string filePart, none, none, slh)
  else
    match qPos, hPos with
    | some qPos, some hPos =>
      let (filePart, slh) ← SLHAlloc slh qPos
      let slh ← slh.memcpy filePart (uri.bytes.take qPos)
      let (queryString, slh) ← SLHAlloc slh (hPos - qPos)
      let slh ← slh.memcpy queryString ((uri.bytes.drop (qPos + 1)).take (hPos - qPos))
      let query ← slh.string queryString
      return (← slh.string filePart, some query, some (ofBytes (uri.bytes.drop (hPos + 1))), slh)
    | some qPos, none =>
      let (filePart, slh) ← SLHAlloc slh qPos
      let slh ← slh.memcpy filePart (uri.bytes.take qPos)
      return (← slh.string filePart, some (ofBytes (uri.bytes.drop (qPos + 1))), none, slh)
    | none, some hPos =>
      let (filePart, slh) ← SLHAlloc slh hPos
      let slh ← slh.memcpy filePart (uri.bytes.take hPos)
      return (← slh.string filePart, none, some (ofBytes (uri.bytes.drop (hPos + 1))), slh)
    | none, none => return (uri, none, none, slh)

/-- The path is compared with a native slash. -/
def parseURI (slh : ShortLivedHeap) (uri : CString) : Exec (ParsedUri × ShortLivedHeap) := do
  let (filePart, queryString, fragmentIdentifier, slh) ← filePartOf slh uri
  let queryStringLen := (queryString.map CString.strlen).getD 0
  if filePart.bytes ≠ Ebcdic.literal "/" then
    let (_, slh) ← SLHAlloc slh STRING_LIST_SIZE
    let start := if filePart.bytes[0]? = some ASCII_SLASH then 1 else 0
    let (parsedFile, slh) ← splitFile filePart.bytes start slh []
    return (⟨filePart, some parsedFile, queryString, queryStringLen, fragmentIdentifier⟩, slh)
  else return (⟨filePart, none, queryString, queryStringLen, fragmentIdentifier⟩, slh)

/-! What the loop makes of a path -/

variable {slh slh' : ShortLivedHeap} {parsedFile : List CString}

def addParts (slh : ShortLivedHeap) (parsedFile : List CString) (parts : List (List Byte)) :
    Exec (List CString × ShortLivedHeap) :=
  parts.foldlM (fun r part => addPart r.2 r.1 part) (parsedFile, slh)

def partStorage (part : List Byte) : List ℕ := [part.length + 1, STRING_LIST_ELT_SIZE]

theorem unasciify_terminated {part : List Byte} (hnul : NoNul part) :
    destructivelyUnasciify (part ++ [0]) =
      if InTable part then .ok (part.map nativeChar ++ [0]) else .error .undefinedBehaviour := by
  induction part with
  | nil =>
    have htable : InTable [] := List.forall_mem_nil _
    rw [if_pos htable, List.nil_append, destructivelyUnasciify, if_pos rfl]
    rfl
  | cons c part ih =>
    obtain ⟨hc, hrest⟩ := List.forall_mem_cons.mp hnul
    rw [List.cons_append, destructivelyUnasciify, if_neg hc, unasciify_eq, ih hrest]
    by_cases htable : c.toNat ≤ 0x80
    · by_cases hparts : InTable part
      · rw [if_pos htable, if_pos hparts, if_pos ((inTable_cons hc).mpr ⟨htable, hparts⟩)]
        rfl
      · rw [if_pos htable, if_neg hparts, if_neg fun h => hparts ((inTable_cons hc).mp h).2]
        rfl
    · rw [if_neg htable, if_neg fun h => htable ((inTable_cons hc).mp h).1]
      rfl

theorem addPart_eq_ok {part : List Byte} (hnul : NoNul part) {r : List CString × ShortLivedHeap} :
    addPart slh parsedFile part = .ok r ↔ InTable part ∧
      r.1 = parsedFile ++ [ofBytes (part.map nativeChar)] ∧
      ∃ p slh₁ q, SLHAlloc slh (part.length + 1) = .ok (p, slh₁) ∧
        SLHAlloc slh₁ STRING_LIST_ELT_SIZE = .ok (q, r.2) := by
  unfold addPart
  rw [unasciify_terminated hnul]
  by_cases htable : InTable part
  · rw [if_pos htable]
    constructor
    · intro h
      obtain ⟨⟨p, slh₁⟩, hpart, h⟩ := Exec.bind_eq_ok.mp h
      dsimp only at h
      rw [Exec.ok_bind] at h
      obtain ⟨⟨q, slh₂⟩, helt, h⟩ := Exec.bind_eq_ok.mp h
      cases h
      rw [CString.ofBytes_terminated]
      exact ⟨htable, rfl, p, slh₁, q, hpart, helt⟩
    · rintro ⟨-, hlist, p, slh₁, q, hpart, helt⟩
      rw [hpart, Exec.ok_bind]
      dsimp only
      rw [Exec.ok_bind, helt, Exec.ok_bind]
      rw [CString.ofBytes_terminated]
      exact congrArg Except.ok (Prod.ext hlist.symm rfl)
  · rw [if_neg htable]
    refine iff_of_false (fun h => ?_) fun h => htable h.1
    obtain ⟨⟨p, slh₁⟩, -, h⟩ := Exec.bind_eq_ok.mp h
    cases h

/-- By induction on the parts: each has its storage and is in the table. -/
theorem addParts_eq_ok {parts : List (List Byte)} (hnul : ∀ part ∈ parts, NoNul part) :
    (∀ r, addParts slh parsedFile parts = .ok r →
      r.1 = parsedFile ++ parts.map fun part => ofBytes (part.map nativeChar)) ∧
    ((∃ r, addParts slh parsedFile parts = .ok r) ↔
      (∀ part ∈ parts, InTable part) ∧ slh.lasts (parts.flatMap partStorage) = true) := by
  induction parts generalizing slh parsedFile with
  | nil =>
    refine ⟨fun r hr => ?_, fun _ => ⟨List.forall_mem_nil _, rfl⟩, fun _ => ⟨_, rfl⟩⟩
    cases hr
    exact (List.append_nil _).symm
  | cons part parts ih =>
    obtain ⟨hpart, hparts⟩ := List.forall_mem_cons.mp hnul
    have hcons : addParts slh parsedFile (part :: parts) =
        addPart slh parsedFile part >>= fun r => addParts r.2 r.1 parts := rfl
    rw [hcons]
    constructor
    · intro r hr
      obtain ⟨r₁, hadd, hrest⟩ := Exec.bind_eq_ok.mp hr
      obtain ⟨-, hlist, -⟩ := (addPart_eq_ok hpart).mp hadd
      rw [(ih hparts).1 r hrest, hlist, List.append_assoc]
      rfl
    · rw [List.forall_mem_cons, List.flatMap_cons, partStorage]
      constructor
      · rintro ⟨r, hr⟩
        obtain ⟨r₁, hadd, hrest⟩ := Exec.bind_eq_ok.mp hr
        obtain ⟨htable, -, p, slh₁, q, hfirst, hsecond⟩ := (addPart_eq_ok hpart).mp hadd
        obtain ⟨htables, hlasts⟩ := (ih hparts).2.mp ⟨r, hrest⟩
        exact ⟨⟨htable, htables⟩, ShortLivedHeap.lasts_cons.mpr ⟨p, slh₁, hfirst,
          ShortLivedHeap.lasts_cons.mpr ⟨q, r₁.2, hsecond, hlasts⟩⟩⟩
      · rintro ⟨⟨htable, htables⟩, hlasts⟩
        obtain ⟨p, slh₁, hfirst, hlasts⟩ := ShortLivedHeap.lasts_cons.mp hlasts
        obtain ⟨q, slh₂, hsecond, hlasts⟩ := ShortLivedHeap.lasts_cons.mp hlasts
        have hadd : addPart slh parsedFile part =
            .ok (parsedFile ++ [ofBytes (part.map nativeChar)], slh₂) :=
          (addPart_eq_ok hpart).mpr ⟨htable, rfl, p, slh₁, q, hfirst, hsecond⟩
        rw [hadd, Exec.ok_bind]
        exact (ih hparts).2.mpr ⟨htables, hlasts⟩

theorem splitFile_some {filePart : List Byte} {start slashPos : ℕ}
    (h : Utils.indexOf filePart ASCII_SLASH start = some slashPos) :
    splitFile filePart start slh parsedFile = (do
      let r ← addPart slh parsedFile ((filePart.drop start).take (slashPos - start))
      splitFile filePart (slashPos + 1) r.2 r.1) := by
  rw [splitFile]
  split
  · next slashPos' heq =>
    rw [h] at heq
    cases heq
    rfl
  · next heq =>
    rw [h] at heq
    cases heq

theorem splitFile_none {filePart : List Byte} {start : ℕ}
    (h : Utils.indexOf filePart ASCII_SLASH start = none) :
    splitFile filePart start slh parsedFile =
      if filePart.length > start then addPart slh parsedFile (filePart.drop start)
      else .ok (parsedFile, slh) := by
  rw [splitFile]
  split
  · next slashPos' heq =>
    rw [h] at heq
    cases heq
  · rfl

/-- The loop adds the segments of the path, without an empty one at the end. -/
theorem splitFile_eq (filePart : List Byte) (start : ℕ) (slh : ShortLivedHeap)
    (parsedFile : List CString) : splitFile filePart start slh parsedFile =
      addParts slh parsedFile (segments ASCII_SLASH (filePart.drop start)) := by
  induction start, slh, parsedFile using splitFile.induct filePart with
  | case1 start slh parsedFile slashPos hslash ih =>
    rw [Utils.indexOf_from] at hslash
    obtain ⟨i, hi, rfl⟩ := Option.map_eq_some_iff.mp hslash
    obtain ⟨before, after, htext, hnot, rfl⟩ := Utils.indexOf_zero_some hi
    have hpart : (filePart.drop start).take (start + before.length - start) = before := by
      rw [Nat.add_sub_cancel_left, htext, List.take_left]
    have hafter : filePart.drop (start + before.length + 1) = after := by
      rw [Nat.add_assoc, ← List.drop_drop, htext, ← List.drop_drop, List.drop_left]
      rfl
    rw [splitFile_some (by rw [Utils.indexOf_from]; exact hslash), hpart, htext,
      Segments.segments_append_cons hnot]
    change _ = addPart slh parsedFile before >>= fun r => addParts r.2 r.1 _
    congr 1
    funext r
    rw [ih r.1 r.2, hafter]
  | case2 start slh parsedFile hslash hlonger =>
    rw [Utils.indexOf_from, Option.map_eq_none_iff] at hslash
    have hne : filePart.drop start ≠ [] := by
      rw [ne_eq, List.drop_eq_nil_iff]
      omega
    rw [splitFile_none (by rw [Utils.indexOf_from, hslash]; rfl), if_pos hlonger,
      Segments.segments_of_notMem (Utils.indexOf_zero_none hslash) hne]
    exact (bind_pure _).symm
  | case3 start slh parsedFile hslash hlonger =>
    rw [splitFile_none hslash, if_neg hlonger, List.drop_of_length_le (by omega),
      Segments.segments_nil]
    rfl

/-! Which URIs are split exactly -/

/-- A URI by its parts: the query has no hash, and the parts of the path have no mark at all. -/
structure RequestUri where
  parts : List CString
  query : Option CString
  fragment : Option CString
  parts_ne_nil : parts ≠ []
  parts_clean : ∀ p ∈ parts, ASCII_SLASH ∉ p.bytes ∧ ASCII_QUESTION ∉ p.bytes ∧
    ASCII_HASH ∉ p.bytes
  query_clean : ∀ q ∈ query, ASCII_HASH ∉ q.bytes

namespace RequestUri

def path (uri : RequestUri) : List Byte := uri.parts.flatMap fun p => ASCII_SLASH :: p.bytes

def marked (mark : Byte) (component : Option CString) : List Byte :=
  (component.map fun s => mark :: s.bytes).getD []

def text (uri : RequestUri) : List Byte :=
  uri.path ++ (marked ASCII_QUESTION uri.query ++ marked ASCII_HASH uri.fragment)

/-- The request has the parts of the path as native text, and the query and the fragment. -/
def Splits (slh : ShortLivedHeap) (uri : RequestUri) : Prop :=
  ∃ r slh', parseURI slh (ofBytes uri.text) = .ok (r, slh') ∧
    r.parsedFile = some (uri.parts.map fun p => ofBytes (p.bytes.map Ebcdic.toIbm1047)) ∧
    r.queryString = uri.query ∧ r.queryStringLen = (uri.query.map CString.strlen).getD 0 ∧
    r.fragmentIdentifier = uri.fragment

/-- The storage that is cut, for the path if anything follows it, for the list and its parts. -/
def storage (uri : RequestUri) : List ℕ :=
  (if uri.query.isSome ∨ uri.fragment.isSome then [uri.path.length] else []) ++
    STRING_LIST_SIZE :: uri.parts.flatMap fun p => partStorage p.bytes

structure Splittable (slh : ShortLivedHeap) (uri : RequestUri) : Prop where
  last : ∀ p ∈ uri.parts.getLast?, p.bytes ≠ []
  printable : ∀ p ∈ uri.parts, ∀ c ∈ p.bytes, 0x20 ≤ c.toNat ∧ c.toNat < 0x7F
  one : uri.query = none ∨ uri.fragment = none
  mark : uri.query = none → ∀ f ∈ uri.fragment, ASCII_QUESTION ∉ f.bytes
  terminated : uri.query.isSome ∨ uri.fragment.isSome →
    uri.path.length < slh.roomAt uri.path.length
  lasts : slh.lasts uri.storage = true

variable {uri : RequestUri}

/-- Only what is printed keeps its meaning. -/
theorem nativeChar_eq_toIbm1047_iff {c : Byte} (hc : c ≠ 0) (htable : c.toNat ≤ 0x80) :
    nativeChar c = Ebcdic.toIbm1047 c ↔ 0x20 ≤ c.toNat ∧ c.toNat < 0x7F := by
  have hall : ∀ c : Byte, c ≠ 0 → c.toNat ≤ 0x80 →
      (nativeChar c = BitVec.ofNat 8 (Ebcdic.packed Ebcdic.iso88591_to_ibm1047 >>> (8 * c.toNat)) ↔
        0x20 ≤ c.toNat ∧ c.toNat < 0x7F) := by
    simp only [nativeChar_packed]
    decide +kernel
  rw [Ebcdic.toIbm1047_packed]
  exact hall c hc htable

theorem inTable_iff (s : CString) : InTable s.bytes ↔ ∀ c ∈ s.bytes, c.toNat ≤ 0x80 := by
  unfold InTable
  rw [List.takeWhile_eq_self_iff.mpr fun c hc => decide_eq_true (s.noNul c hc)]

theorem ofBytes_native_eq_iff {s : CString} (htable : InTable s.bytes) :
    ofBytes (s.bytes.map nativeChar) = ofBytes (s.bytes.map Ebcdic.toIbm1047) ↔
      ∀ c ∈ s.bytes, 0x20 ≤ c.toNat ∧ c.toNat < 0x7F := by
  have hall := (inTable_iff s).mp htable
  have hnul : NoNul (s.bytes.map Ebcdic.toIbm1047) := by
    intro e he
    obtain ⟨c, hc, rfl⟩ := List.mem_map.mp he
    exact Ebcdic.toIbm1047_ne_zero (s.noNul c hc)
  constructor
  · intro h c hc
    have hbytes : (s.bytes.map nativeChar).takeWhile (· ≠ 0) = s.bytes.map Ebcdic.toIbm1047 :=
      (congrArg CString.bytes h).trans (CString.ofBytes_of_noNul hnul)
    have hlength := congrArg List.length hbytes
    rw [List.length_map] at hlength
    rw [(List.takeWhile_prefix _).eq_of_length (hlength.trans (List.length_map _).symm)] at hbytes
    exact (nativeChar_eq_toIbm1047_iff (s.noNul c hc) (hall c hc)).mp
      (List.map_inj_left.mp hbytes c hc)
  · intro h
    have hmap : s.bytes.map nativeChar = s.bytes.map Ebcdic.toIbm1047 :=
      List.map_congr_left fun c hc =>
        (nativeChar_eq_toIbm1047_iff (s.noNul c hc) (hall c hc)).mpr (h c hc)
    rw [hmap]

theorem segments_parts {parts : List (List Byte)} (hne : parts ≠ [])
    (hclean : ∀ p ∈ parts, ASCII_SLASH ∉ p) :
    segments ASCII_SLASH ((parts.flatMap fun p => ASCII_SLASH :: p).drop 1) =
      Segments.dropEmptyLast parts := by
  induction parts with
  | nil => exact absurd rfl hne
  | cons part parts ih =>
    obtain ⟨hpart, hparts⟩ := List.forall_mem_cons.mp hclean
    rw [List.flatMap_cons]
    show segments ASCII_SLASH (part ++ parts.flatMap fun p => ASCII_SLASH :: p) = _
    cases parts with
    | nil =>
      rw [List.flatMap_nil, List.append_nil]
      by_cases hempty : part = []
      · rw [hempty, Segments.segments_nil]
        rfl
      · rw [Segments.segments_of_notMem hpart hempty,
          Segments.dropEmptyLast_eq_self fun p hp => by cases hp; exact hempty]
    | cons next parts =>
      have hrest := ih (List.cons_ne_nil _ _) hparts
      rw [List.flatMap_cons] at hrest ⊢
      rw [List.cons_append, Segments.segments_append_cons hpart,
        Segments.dropEmptyLast_cons (List.cons_ne_nil _ _), ← hrest]
      rfl

/-- The loop finds the parts of the path, if the last one is there and all are printed. -/
theorem exists_addParts_iff (uri : RequestUri) (slh : ShortLivedHeap) :
    (∃ r, addParts slh [] (segments ASCII_SLASH (uri.path.drop 1)) = .ok r ∧
      r.1 = uri.parts.map fun p => ofBytes (p.bytes.map Ebcdic.toIbm1047)) ↔
    (∀ p ∈ uri.parts.getLast?, p.bytes ≠ []) ∧
      (∀ p ∈ uri.parts, ∀ c ∈ p.bytes, 0x20 ≤ c.toNat ∧ c.toNat < 0x7F) ∧
      slh.lasts (uri.parts.flatMap fun p => partStorage p.bytes) = true := by
  have hpath : uri.path = (uri.parts.map CString.bytes).flatMap fun p => ASCII_SLASH :: p := by
    rw [List.flatMap_map]
    rfl
  have hstorage : (uri.parts.flatMap fun p => partStorage p.bytes) =
      (uri.parts.map CString.bytes).flatMap partStorage := by
    rw [List.flatMap_map]
  have hclean : ∀ p ∈ uri.parts.map CString.bytes, ASCII_SLASH ∉ p := by
    intro p hp
    obtain ⟨s, hs, rfl⟩ := List.mem_map.mp hp
    exact (uri.parts_clean s hs).1
  have hnul : ∀ p ∈ uri.parts.map CString.bytes, NoNul p := by
    intro p hp
    obtain ⟨s, -, rfl⟩ := List.mem_map.mp hp
    exact s.noNul
  have hne : uri.parts.map CString.bytes ≠ [] := by simpa using uri.parts_ne_nil
  have hlast : (∀ p ∈ uri.parts.getLast?, p.bytes ≠ []) ↔
      ∀ p ∈ (uri.parts.map CString.bytes).getLast?, p ≠ [] := by
    rw [List.getLast?_map]
    simp
  rw [hpath, segments_parts hne hclean, hstorage, hlast]
  by_cases hempty : ∀ p ∈ (uri.parts.map CString.bytes).getLast?, p ≠ []
  · rw [Segments.dropEmptyLast_eq_self hempty]
    obtain ⟨hlist, hok⟩ := @addParts_eq_ok slh [] _ hnul
    constructor
    · rintro ⟨r, hr, heq⟩
      obtain ⟨htable, hlasts⟩ := hok.mp ⟨r, hr⟩
      refine ⟨hempty, fun p hp => ?_, hlasts⟩
      rw [hlist r hr, List.nil_append, List.map_map] at heq
      exact (ofBytes_native_eq_iff (htable _ (List.mem_map_of_mem hp))).mp
        (List.map_inj_left.mp heq p hp)
    · rintro ⟨-, hprintable, hlasts⟩
      have htable : ∀ p ∈ uri.parts, InTable p.bytes := fun p hp =>
        (inTable_iff p).mpr fun c hc => by
          have hc := hprintable p hp c hc
          omega
      obtain ⟨r, hr⟩ := hok.mpr ⟨List.forall_mem_map.mpr htable, hlasts⟩
      refine ⟨r, hr, ?_⟩
      rw [hlist r hr, List.nil_append, List.map_map]
      exact List.map_congr_left fun p hp =>
        (ofBytes_native_eq_iff (htable p hp)).mpr (hprintable p hp)
  · refine iff_of_false ?_ fun h => hempty h.1
    rintro ⟨r, hr, heq⟩
    have hshort : (Segments.dropEmptyLast (uri.parts.map CString.bytes)).length <
        (uri.parts.map CString.bytes).length := by
      push Not at hempty
      obtain ⟨p, hp, rfl⟩ := hempty
      exact Segments.length_dropEmptyLast_lt hp
    have hlist := (@addParts_eq_ok slh [] _
      fun p hp => hnul p (Segments.dropEmptyLast_subset _ hp)).1 r hr
    have hlength := congrArg List.length (hlist.symm.trans heq)
    rw [List.nil_append, List.length_map, List.length_map] at hlength
    rw [List.length_map] at hshort
    omega

theorem exists_path_eq (uri : RequestUri) : ∃ rest, uri.path = ASCII_SLASH :: rest := by
  unfold path
  cases hparts : uri.parts with
  | nil => exact absurd hparts uri.parts_ne_nil
  | cons part parts => exact ⟨_, List.flatMap_cons⟩

theorem path_length_pos (uri : RequestUri) : 0 < uri.path.length := by
  obtain ⟨rest, hpath⟩ := exists_path_eq uri
  rw [hpath]
  exact Nat.succ_pos _

theorem mem_path {c : Byte} (hc : c ∈ uri.path) :
    c = ASCII_SLASH ∨ ∃ p ∈ uri.parts, c ∈ p.bytes := by
  obtain ⟨p, hp, hmem⟩ := List.mem_flatMap.mp hc
  rcases List.mem_cons.mp hmem with heq | hmem
  · exact .inl heq
  · exact .inr ⟨p, hp, hmem⟩

theorem question_notMem_path (uri : RequestUri) : ASCII_QUESTION ∉ uri.path := by
  intro hmem
  rcases mem_path hmem with heq | ⟨p, hp, hin⟩
  · exact absurd heq (by decide)
  · exact (uri.parts_clean p hp).2.1 hin

theorem hash_notMem_path (uri : RequestUri) : ASCII_HASH ∉ uri.path := by
  intro hmem
  rcases mem_path hmem with heq | ⟨p, hp, hin⟩
  · exact absurd heq (by decide)
  · exact (uri.parts_clean p hp).2.2 hin

theorem noNul_path (uri : RequestUri) : NoNul uri.path := by
  intro c hc
  rcases mem_path hc with rfl | ⟨p, hp, hin⟩
  · decide
  · exact p.noNul c hin

theorem noNul_marked {mark : Byte} (hmark : mark ≠ 0) (component : Option CString) :
    NoNul (marked mark component) := by
  cases component with
  | none => exact .nil
  | some s => exact .cons hmark s.noNul

theorem noNul_text (uri : RequestUri) : NoNul uri.text :=
  (noNul_path uri).append ((noNul_marked (by decide) _).append (noNul_marked (by decide) _))

theorem bytes_text (uri : RequestUri) : (ofBytes uri.text).bytes = uri.text :=
  CString.ofBytes_of_noNul (noNul_text uri)

/-- Once the path has been found, its parts and what was found with it decide. -/
theorem splits_iff_of_filePart {slh₁ : ShortLivedHeap} {file : CString}
    {query fragment : Option CString}
    (hrun : filePartOf slh (ofBytes uri.text) = .ok (file, query, fragment, slh₁))
    (hfile : file.bytes = uri.path) :
    Splits slh uri ↔ query = uri.query ∧ fragment = uri.fragment ∧
      (∀ p ∈ uri.parts.getLast?, p.bytes ≠ []) ∧
      (∀ p ∈ uri.parts, ∀ c ∈ p.bytes, 0x20 ≤ c.toNat ∧ c.toNat < 0x7F) ∧
      slh₁.lasts (STRING_LIST_SIZE :: uri.parts.flatMap fun p => partStorage p.bytes) = true := by
  obtain ⟨rest, hpath⟩ := exists_path_eq uri
  have hnative : file.bytes ≠ Ebcdic.literal "/" := by
    rw [hfile, hpath]
    intro h
    exact absurd (List.cons.inj h).1 (by decide)
  have hstart : file.bytes[0]? = some ASCII_SLASH := by
    rw [hfile, hpath]
    rfl
  have hparse : parseURI slh (ofBytes uri.text) = (do
      let list ← SLHAlloc slh₁ STRING_LIST_SIZE
      let found ← addParts list.2 [] (segments ASCII_SLASH (uri.path.drop 1))
      return (⟨file, some found.1, query, (query.map CString.strlen).getD 0, fragment⟩,
        found.2)) := by
    unfold parseURI
    rw [hrun, Exec.ok_bind]
    dsimp only
    rw [if_pos hnative, if_pos hstart]
    simp only [splitFile_eq, hfile]
  unfold Splits
  rw [hparse, ShortLivedHeap.lasts_cons]
  constructor
  · rintro ⟨r, slh', h, hparts, hquery, -, hfragment⟩
    obtain ⟨⟨p, slh₂⟩, hlist, h⟩ := Exec.bind_eq_ok.mp h
    obtain ⟨found, hfound, h⟩ := Exec.bind_eq_ok.mp h
    cases h
    obtain ⟨hlast, hprintable, hlasts⟩ :=
      (exists_addParts_iff uri slh₂).mp ⟨found, hfound, Option.some.inj hparts⟩
    exact ⟨hquery, hfragment, hlast, hprintable, p, slh₂, hlist, hlasts⟩
  · rintro ⟨rfl, rfl, hlast, hprintable, p, slh₂, hlist, hlasts⟩
    obtain ⟨found, hfound, hparts⟩ :=
      (exists_addParts_iff uri slh₂).mpr ⟨hlast, hprintable, hlasts⟩
    refine ⟨⟨file, some found.1, uri.query, (uri.query.map CString.strlen).getD 0, uri.fragment⟩,
      found.2, ?_, congrArg some hparts, rfl, rfl, rfl⟩
    rw [hlist, Exec.ok_bind]
    dsimp only
    rw [hfound]
    rfl

theorem not_splits_of_error {fault : Fault}
    (hrun : filePartOf slh (ofBytes uri.text) = .error fault) : ¬ Splits slh uri := by
  rintro ⟨r, slh', h, -⟩
  unfold parseURI at h
  rw [hrun] at h
  cases h

theorem splits_iff_of_copied (hwf : slh.Wf)
    (hrun : filePartOf slh (ofBytes uri.text) = (do
      let filePart ← SLHAlloc slh uri.path.length
      let slh ← filePart.2.memcpy filePart.1 uri.path
      return (← slh.string filePart.1, uri.query, uri.fragment, slh)))
    (hsome : uri.query.isSome ∨ uri.fragment.isSome) :
    Splits slh uri ↔ uri.path.length < slh.roomAt uri.path.length ∧
      (∀ p ∈ uri.parts.getLast?, p.bytes ≠ []) ∧
      (∀ p ∈ uri.parts, ∀ c ∈ p.bytes, 0x20 ≤ c.toNat ∧ c.toNat < 0x7F) ∧
      slh.lasts uri.storage = true := by
  have hstorage : uri.storage = uri.path.length :: STRING_LIST_SIZE ::
      uri.parts.flatMap fun p => partStorage p.bytes := by
    rw [storage, if_pos hsome]
    rfl
  rw [hstorage, ShortLivedHeap.lasts_cons]
  cases halloc : SLHAlloc slh uri.path.length with
  | error fault =>
    rw [halloc] at hrun
    refine iff_of_false (not_splits_of_error hrun) ?_
    rintro ⟨-, -, -, p, slh', h, -⟩
    cases h
  | ok a =>
    obtain ⟨p, slh₁⟩ := a
    obtain ⟨slh₂, hcopy, hstring⟩ := hwf.copy (noNul_path uri) (path_length_pos uri) halloc
    rw [halloc, Exec.ok_bind] at hrun
    dsimp only at hrun
    rw [hcopy, Exec.ok_bind, hstring] at hrun
    by_cases hroom : uri.path.length < slh.roomAt uri.path.length
    · rw [if_pos hroom, Exec.ok_bind] at hrun
      rw [splits_iff_of_filePart hrun (CString.ofBytes_of_noNul (noNul_path uri)),
        (ShortLivedHeap.alike_memcpy hcopy).lasts_iff]
      constructor
      · rintro ⟨-, -, hlast, hprintable, hlasts⟩
        exact ⟨hroom, hlast, hprintable, p, slh₁, rfl, hlasts⟩
      · rintro ⟨-, hlast, hprintable, p', slh', heq, hlasts⟩
        cases heq
        exact ⟨rfl, rfl, hlast, hprintable, hlasts⟩
    · rw [if_neg hroom] at hrun
      exact iff_of_false (not_splits_of_error hrun) fun h => hroom h.1

theorem exists_filePartOf {r : ParsedUri} (h : parseURI slh (ofBytes uri.text) = .ok (r, slh')) :
    ∃ file slh₁, filePartOf slh (ofBytes uri.text) =
      .ok (file, r.queryString, r.fragmentIdentifier, slh₁) := by
  unfold parseURI at h
  obtain ⟨⟨file, query, fragment, slh₁⟩, hfile, h⟩ := Exec.bind_eq_ok.mp h
  refine ⟨file, slh₁, ?_⟩
  rw [hfile]
  dsimp only at h
  split_ifs at h
  · obtain ⟨⟨p, slh₂⟩, -, h⟩ := Exec.bind_eq_ok.mp h
    obtain ⟨⟨list, slh₃⟩, -, h⟩ := Exec.bind_eq_ok.mp h
    cases h
    rfl
  · obtain ⟨⟨p, slh₂⟩, -, h⟩ := Exec.bind_eq_ok.mp h
    obtain ⟨⟨list, slh₃⟩, -, h⟩ := Exec.bind_eq_ok.mp h
    cases h
    rfl
  · cases h
    rfl

theorem not_last_of_length_one (h : uri.path.length = 1) :
    ¬ ∀ p ∈ uri.parts.getLast?, p.bytes ≠ [] := by
  unfold path at h
  cases hparts : uri.parts with
  | nil => exact absurd hparts uri.parts_ne_nil
  | cons part parts =>
    rw [hparts, List.flatMap_cons, List.length_append, List.length_cons] at h
    cases parts with
    | nil =>
      intro hlast
      exact hlast part rfl (List.length_eq_zero_iff.mp (by omega))
    | cons next parts =>
      rw [List.flatMap_cons, List.length_append, List.length_cons] at h
      omega

theorem length_marked_some (mark : Byte) (s : CString) :
    (marked mark (some s)).length = s.bytes.length + 1 := List.length_cons

theorem not_trivial (hsome : uri.query.isSome ∨ uri.fragment.isSome) :
    ¬(uri.text.length = 0 ∨ uri.text.length = 1 ∧ uri.text[0]? = some ASCII_SLASH) := by
  have hpos := path_length_pos uri
  have hlength : 2 ≤ uri.text.length := by
    unfold text
    rw [List.length_append, List.length_append]
    rcases hsome with hquery | hfragment
    · obtain ⟨q, hq⟩ := Option.isSome_iff_exists.mp hquery
      rw [hq, length_marked_some]
      omega
    · obtain ⟨f, hf⟩ := Option.isSome_iff_exists.mp hfragment
      rw [hf, length_marked_some]
      omega
  omega

theorem take_text (uri : RequestUri) : uri.text.take uri.path.length = uri.path :=
  List.take_left

theorem drop_text (uri : RequestUri) : uri.text.drop uri.path.length =
    marked ASCII_QUESTION uri.query ++ marked ASCII_HASH uri.fragment := List.drop_left

theorem filePartOf_query {q : CString} (hquery : uri.query = some q)
    (hfragment : uri.fragment = none) :
    filePartOf slh (ofBytes uri.text) = (do
      let filePart ← SLHAlloc slh uri.path.length
      let slh ← filePart.2.memcpy filePart.1 uri.path
      return (← slh.string filePart.1, uri.query, uri.fragment, slh)) := by
  have htext : uri.text = uri.path ++ ASCII_QUESTION :: q.bytes := by
    rw [text, hquery, hfragment]
    exact congrArg (uri.path ++ ·) (List.append_nil _)
  have hq : Utils.indexOf uri.text ASCII_QUESTION 0 = some uri.path.length := by
    rw [htext]
    exact Utils.indexOf_append (question_notMem_path uri) _
  have hh : Utils.indexOf uri.text ASCII_HASH uri.path.length = none := by
    apply Utils.indexOf_eq_none
    rw [htext, List.mem_append, List.mem_cons, not_or, not_or]
    exact ⟨hash_notMem_path uri, by decide, uri.query_clean q hquery⟩
  have hdrop : uri.text.drop (uri.path.length + 1) = q.bytes := by
    rw [← List.drop_drop, drop_text, hquery, hfragment]
    exact List.append_nil _
  unfold filePartOf
  rw [bytes_text, hq]
  dsimp only [Option.getD_some]
  rw [hh, if_neg (not_trivial (.inl (by rw [hquery]; rfl)))]
  dsimp only
  rw [take_text, hdrop, CString.ofBytes_bytes, hquery, hfragment]

theorem filePartOf_fragment {f : CString} (hquery : uri.query = none)
    (hfragment : uri.fragment = some f) (hmark : ASCII_QUESTION ∉ f.bytes) :
    filePartOf slh (ofBytes uri.text) = (do
      let filePart ← SLHAlloc slh uri.path.length
      let slh ← filePart.2.memcpy filePart.1 uri.path
      return (← slh.string filePart.1, uri.query, uri.fragment, slh)) := by
  have htext : uri.text = uri.path ++ ASCII_HASH :: f.bytes := by
    rw [text, hquery, hfragment]
    rfl
  have hq : Utils.indexOf uri.text ASCII_QUESTION 0 = none := by
    apply Utils.indexOf_eq_none
    rw [htext, List.mem_append, List.mem_cons, not_or, not_or]
    exact ⟨question_notMem_path uri, by decide, hmark⟩
  have hh : Utils.indexOf uri.text ASCII_HASH 0 = some uri.path.length := by
    rw [htext]
    exact Utils.indexOf_append (hash_notMem_path uri) _
  have hdrop : uri.text.drop (uri.path.length + 1) = f.bytes := by
    rw [← List.drop_drop, drop_text, hquery, hfragment]
    rfl
  unfold filePartOf
  rw [bytes_text, hq]
  dsimp only [Option.getD_none]
  rw [hh, if_neg (not_trivial (.inr (by rw [hfragment]; rfl)))]
  dsimp only
  rw [take_text, hdrop, CString.ofBytes_bytes, hquery, hfragment]

theorem isSome_of_question {u file : CString} {query fragment : Option CString} {k : ℕ}
    (hk : Utils.indexOf u.bytes ASCII_QUESTION 0 = some k)
    (htrivial : ¬(u.bytes.length = 0 ∨ u.bytes.length = 1 ∧ u.bytes[0]? = some ASCII_SLASH))
    (h : filePartOf slh u = .ok (file, query, fragment, slh')) : query.isSome = true := by
  unfold filePartOf at h
  rw [hk] at h
  dsimp only [Option.getD_some] at h
  rw [if_neg htrivial] at h
  cases hh : Utils.indexOf u.bytes ASCII_HASH k with
  | some hPos =>
    rw [hh] at h
    obtain ⟨⟨p, slh₁⟩, -, h⟩ := Exec.bind_eq_ok.mp h
    obtain ⟨slh₂, -, h⟩ := Exec.bind_eq_ok.mp h
    obtain ⟨⟨q, slh₃⟩, -, h⟩ := Exec.bind_eq_ok.mp h
    obtain ⟨slh₄, -, h⟩ := Exec.bind_eq_ok.mp h
    obtain ⟨text, -, h⟩ := Exec.bind_eq_ok.mp h
    obtain ⟨path, -, h⟩ := Exec.bind_eq_ok.mp h
    cases h
    rfl
  | none =>
    rw [hh] at h
    obtain ⟨⟨p, slh₁⟩, -, h⟩ := Exec.bind_eq_ok.mp h
    obtain ⟨slh₂, -, h⟩ := Exec.bind_eq_ok.mp h
    obtain ⟨path, -, h⟩ := Exec.bind_eq_ok.mp h
    cases h
    rfl

theorem not_splits_of_mark {f : CString} (hquery : uri.query = none)
    (hfragment : uri.fragment = some f) (hmark : ASCII_QUESTION ∈ f.bytes) :
    ¬ Splits slh uri := by
  rintro ⟨r, slh', h, -, hnone, -, -⟩
  obtain ⟨file, slh₁, hfile⟩ := exists_filePartOf h
  have hin : ASCII_QUESTION ∈ uri.text := by
    rw [text, hfragment]
    exact List.mem_append_right _ (List.mem_append_right _ (List.mem_cons_of_mem _ hmark))
  cases hk : Utils.indexOf uri.text ASCII_QUESTION 0 with
  | none => exact Utils.indexOf_zero_none hk hin
  | some k =>
    rw [← bytes_text] at hk
    have hsecond : uri.fragment.isSome := by
      rw [hfragment]
      rfl
    have htrivial := not_trivial (.inr hsecond)
    rw [← bytes_text] at htrivial
    have hsome := isSome_of_question hk htrivial hfile
    rw [hnone, hquery] at hsome
    cases hsome

/-- The copy of a query that a fragment follows has the hash in it. -/
theorem not_splits_of_both {q f : CString} (hquery : uri.query = some q)
    (hfragment : uri.fragment = some f) : ¬ Splits slh uri := by
  rintro ⟨r, slh', h, -, hsame, -, -⟩
  obtain ⟨file, slh₁, hfile⟩ := exists_filePartOf h
  have htext : uri.text = uri.path ++ ASCII_QUESTION :: (q.bytes ++ ASCII_HASH :: f.bytes) := by
    rw [text, hquery, hfragment]
    rfl
  have hk : Utils.indexOf uri.text ASCII_QUESTION 0 = some uri.path.length := by
    rw [htext]
    exact Utils.indexOf_append (question_notMem_path uri) _
  have hh : Utils.indexOf uri.text ASCII_HASH uri.path.length =
      some (uri.path.length + (q.bytes.length + 1)) := by
    have hnot : ASCII_HASH ∉ ASCII_QUESTION :: q.bytes := by
      rw [List.mem_cons, not_or]
      exact ⟨by decide, uri.query_clean q hquery⟩
    have hfound := Utils.indexOf_append hnot f.bytes
    rw [Utils.indexOf_from, htext, List.drop_left]
    exact congrArg (Option.map (uri.path.length + ·)) hfound
  have hcopied : (uri.text.drop (uri.path.length + 1)).take
      (uri.path.length + (q.bytes.length + 1) - uri.path.length) = q.bytes ++ [ASCII_HASH] := by
    rw [Nat.add_sub_cancel_left, ← List.drop_drop, htext, List.drop_left, List.drop_succ_cons,
      List.drop_zero, List.take_append, List.take_of_length_le (Nat.le_succ _),
      Nat.add_sub_cancel_left]
    rfl
  unfold filePartOf at hfile
  rw [bytes_text, hk] at hfile
  dsimp only [Option.getD_some] at hfile
  rw [hh, if_neg (not_trivial (.inl (by rw [hquery]; rfl)))] at hfile
  dsimp only at hfile
  rw [hcopied] at hfile
  obtain ⟨⟨p, slh₂⟩, -, hfile⟩ := Exec.bind_eq_ok.mp hfile
  obtain ⟨slh₃, -, hfile⟩ := Exec.bind_eq_ok.mp hfile
  obtain ⟨⟨p', slh₄⟩, -, hfile⟩ := Exec.bind_eq_ok.mp hfile
  obtain ⟨slh₅, hcopy, hfile⟩ := Exec.bind_eq_ok.mp hfile
  obtain ⟨found, hstring, hfile⟩ := Exec.bind_eq_ok.mp hfile
  obtain ⟨path, -, hfile⟩ := Exec.bind_eq_ok.mp hfile
  have hfound : found = q := by
    have hpair := congrArg (fun r => r.2.1) (Except.ok.inj hfile)
    exact Option.some.inj (hpair.trans (hsame.trans hquery))
  obtain ⟨rest, hread⟩ := ShortLivedHeap.string_memcpy hcopy
  dsimp only at hstring
  rw [hread] at hstring
  split_ifs at hstring
  have hbytes : (ofBytes (q.bytes ++ [ASCII_HASH] ++ rest)).bytes = q.bytes := by
    rw [Except.ok.inj hstring, hfound]
  have hlong : q.bytes ++ [ASCII_HASH] <+: (ofBytes (q.bytes ++ [ASCII_HASH] ++ rest)).bytes := by
    have hnul : NoNul (q.bytes ++ [ASCII_HASH]) := q.noNul.append (.cons (by decide) .nil)
    unfold ofBytes
    dsimp only
    rw [List.takeWhile_append_of_pos fun c hc => decide_eq_true (hnul c hc)]
    exact List.prefix_append _ _
  rw [hbytes] at hlong
  have hlength := hlong.length_le
  rw [List.length_append, List.length_singleton] at hlength
  omega

theorem filePartOf_slash (htext : uri.text = [ASCII_SLASH]) (hsplits : Splits slh uri) :
    ∃ file slh₁, filePartOf slh (ofBytes uri.text) = .ok (file, none, none, slh₁) ∧
      file.bytes = [ASCII_SLASH] := by
  obtain ⟨r, slh', h, -⟩ := hsplits
  obtain ⟨file, slh₁, hfile⟩ := exists_filePartOf h
  have hrun := hfile
  unfold filePartOf at hfile
  rw [bytes_text] at hfile
  dsimp only at hfile
  rw [if_pos (by rw [htext]; exact .inr ⟨rfl, rfl⟩)] at hfile
  obtain ⟨⟨p, slh₂⟩, -, hfile⟩ := Exec.bind_eq_ok.mp hfile
  obtain ⟨slh₃, hcopy, hfile⟩ := Exec.bind_eq_ok.mp hfile
  obtain ⟨found, hstring, hfile⟩ := Exec.bind_eq_ok.mp hfile
  obtain ⟨rest, hread⟩ := ShortLivedHeap.string_memcpy hcopy
  dsimp only at hstring
  rw [hread] at hstring
  split_ifs at hstring
  rw [← Except.ok.inj hfile] at hrun
  refine ⟨found, slh₃, hrun, ?_⟩
  rw [← Except.ok.inj hstring]
  rfl

/-- A URI of a path alone is not copied, unless it is one slash. -/
theorem splits_iff_of_path (hquery : uri.query = none) (hfragment : uri.fragment = none) :
    Splits slh uri ↔ (∀ p ∈ uri.parts.getLast?, p.bytes ≠ []) ∧
      (∀ p ∈ uri.parts, ∀ c ∈ p.bytes, 0x20 ≤ c.toNat ∧ c.toNat < 0x7F) ∧
      slh.lasts uri.storage = true := by
  have htext : uri.text = uri.path := by
    rw [text, hquery, hfragment]
    exact List.append_nil _
  have hstorage : uri.storage = STRING_LIST_SIZE ::
      uri.parts.flatMap fun p => partStorage p.bytes := by
    rw [storage, hquery, hfragment, if_neg (by simp)]
    rfl
  have hq : Utils.indexOf uri.text ASCII_QUESTION 0 = none :=
    Utils.indexOf_eq_none (by rw [htext]; exact question_notMem_path uri) 0
  have hh : Utils.indexOf uri.text ASCII_HASH 0 = none :=
    Utils.indexOf_eq_none (by rw [htext]; exact hash_notMem_path uri) 0
  have hpos := path_length_pos uri
  by_cases htrivial : uri.path.length = 1
  · refine iff_of_false (fun hsplits => ?_) fun h => not_last_of_length_one htrivial h.1
    obtain ⟨rest, hpath⟩ := exists_path_eq uri
    have hslash : uri.path = [ASCII_SLASH] := by
      rw [hpath, List.length_cons] at htrivial
      rw [hpath, List.length_eq_zero_iff.mp (Nat.succ.inj htrivial)]
    obtain ⟨file, slh₁, hrun, hfile⟩ := filePartOf_slash (htext.trans hslash) hsplits
    exact not_last_of_length_one htrivial
      ((splits_iff_of_filePart hrun (hfile.trans hslash.symm)).mp hsplits).2.2.1
  · have hrun : filePartOf slh (ofBytes uri.text) = .ok (ofBytes uri.text, none, none, slh) := by
      unfold filePartOf
      rw [bytes_text, hq]
      dsimp only [Option.getD_none]
      rw [hh, htext, if_neg (by omega)]
      rfl
    rw [splits_iff_of_filePart hrun (by rw [bytes_text, htext]), hquery, hfragment, hstorage]
    simp

/-- By the cases of what follows the path. -/
theorem splits_iff (slh : ShortLivedHeap) (hwf : slh.Wf) (uri : RequestUri) :
    Splits slh uri ↔ Splittable slh uri := by
  cases hquery : uri.query with
  | none =>
    cases hfragment : uri.fragment with
    | none =>
      rw [splits_iff_of_path hquery hfragment]
      constructor
      · rintro ⟨hlast, hprintable, hlasts⟩
        refine ⟨hlast, hprintable, .inl hquery, fun _ f hf => ?_, fun hsome => ?_, hlasts⟩
        · rw [hfragment] at hf
          cases hf
        · rw [hquery, hfragment] at hsome
          simp at hsome
      · intro h
        exact ⟨h.last, h.printable, h.lasts⟩
    | some f =>
      by_cases hmark : ASCII_QUESTION ∈ f.bytes
      · exact iff_of_false (not_splits_of_mark hquery hfragment hmark)
          fun h => h.mark hquery f hfragment hmark
      · have hsome : uri.query.isSome ∨ uri.fragment.isSome := .inr (by rw [hfragment]; rfl)
        rw [splits_iff_of_copied hwf (filePartOf_fragment hquery hfragment hmark) hsome]
        constructor
        · rintro ⟨hroom, hlast, hprintable, hlasts⟩
          refine ⟨hlast, hprintable, .inl hquery, fun _ f' hf' => ?_, fun _ => hroom, hlasts⟩
          rw [hfragment] at hf'
          cases hf'
          exact hmark
        · intro h
          exact ⟨h.terminated hsome, h.last, h.printable, h.lasts⟩
  | some q =>
    cases hfragment : uri.fragment with
    | some f =>
      refine iff_of_false (not_splits_of_both hquery hfragment) fun h => ?_
      rcases h.one with hnone | hnone
      · rw [hquery] at hnone
        cases hnone
      · rw [hfragment] at hnone
        cases hnone
    | none =>
      have hsome : uri.query.isSome ∨ uri.fragment.isSome := .inl (by rw [hquery]; rfl)
      rw [splits_iff_of_copied hwf (filePartOf_query hquery hfragment) hsome]
      constructor
      · rintro ⟨hroom, hlast, hprintable, hlasts⟩
        refine ⟨hlast, hprintable, .inr hfragment, fun hnone => ?_, fun _ => hroom, hlasts⟩
        rw [hquery] at hnone
        cases hnone
      · intro h
        exact ⟨h.terminated hsome, h.last, h.printable, h.lasts⟩

def abc (fragment : Option CString) : RequestUri where
  parts := [ofBytes [0x61, 0x62]]
  query := some (ofBytes [0x63])
  fragment := fragment
  parts_ne_nil := List.cons_ne_nil _ _
  parts_clean := by decide
  query_clean := by decide

theorem splits_iff_abc : Splits (makeShortLivedHeap 65536 16) (abc none) ↔
    Splittable (makeShortLivedHeap 65536 16) (abc none) :=
  splits_iff _ (ShortLivedHeap.wf_makeShortLivedHeap 65536 16) (abc none)

/-- The query of `/ab?c#d` is `c#`. -/
theorem not_splits_abc : (makeShortLivedHeap 65536 16).Wf ∧
    ¬ Splits (makeShortLivedHeap 65536 16) (abc (some (ofBytes [0x64]))) :=
  ⟨ShortLivedHeap.wf_makeShortLivedHeap 65536 16, not_splits_of_both rfl rfl⟩

end RequestUri

end Uri
end ZoweCommon
