import ZoweCommon.Json.Termination
import ZoweCommon.Jwt.Parts
import ZoweCommon.Lib.Slices

/-! The splitting of a token as it runs in memory: two buffers of one size, the places of the parts
in them, and every access checked. -/
namespace ZoweCommon
namespace JsonWebToken
namespace Memory

open Slices (slice splice)

/-! Checked accesses -/

def getAt {α : Type} (xs : List α) (i : ℕ) : Exec α :=
  match xs[i]? with
  | some x => return x
  | none => throw .undefinedBehaviour

def setAt {α : Type} (xs : List α) (i : ℕ) (x : α) : Exec (List α) :=
  if i < xs.length then return xs.set i x else throw .undefinedBehaviour

def stringAt (buf : List Byte) (place : ℕ) : Exec (List Byte) :=
  let s := (buf.drop place).takeWhile (· ≠ 0)
  if place + s.length < buf.length then return s else throw .undefinedBehaviour

def storeAt (buf : List Byte) (place : ℕ) (bytes : List Byte) : Exec (List Byte) :=
  if place + bytes.length ≤ buf.length then return splice buf place bytes
  else throw .undefinedBehaviour

/-- A negative length is a huge size. -/
def memmove (buf : List Byte) (dst src : ℕ) (n : ℤ) : Exec (List Byte) :=
  if 0 ≤ n ∧ src + n ≤ buf.length then storeAt buf dst (slice buf src n.toNat)
  else throw .undefinedBehaviour

def strtok_r (buf : List Byte) (tokenizer : ℕ) : Exec (Option ℕ × List Byte × ℕ) := do
  let s ← stringAt buf tokenizer
  let start := tokenizer + (s.takeWhile (· = ASCII_PERIOD)).length
  let part := (s.dropWhile (· = ASCII_PERIOD)).takeWhile (· ≠ ASCII_PERIOD)
  let stop := start + part.length
  if part = [] then return (none, buf, stop)
  else if stop = tokenizer + s.length then return (some start, buf, stop)
  else
    let buf ← storeAt buf stop [0]
    return (some start, buf, stop + 1)

/-! Base 64 -/

def replaceChar (buf : List Byte) (place : ℕ) (c : Byte) : Exec (List Byte) :=
  if c = 0x2D then storeAt buf place [0x2B]
  else if c = 0x5F then storeAt buf place [0x2F]
  else return buf

def toBase64From : ℕ → List Byte → ℕ → ℤ → ℕ → Exec (ℕ × List Byte)
  | 0, _, _, _, _ => throw .nonTermination
  | fuel + 1, buf, s, bufSize, i => do
    let c ← getAt buf (s + i)
    if c ≠ 0 ∧ i < bufSize then
      let buf ← replaceChar buf (s + i) c
      toBase64From fuel buf s bufSize (i + 1)
    else return (i, buf)

/-- A buffer has no more turns for the loop than it has bytes. -/
def base64urlToBase64 (buf : List Byte) (s : ℕ) (bufSize : ℤ) : Exec (ℤ × List Byte) := do
  let (i, buf) ← toBase64From (buf.length + 1) buf s bufSize 0
  if i % 4 = 2 then
    if i ≥ bufSize - 2 then return (-2, buf)
    else
      let buf ← storeAt buf (s + i) [0x3D]
      let buf ← storeAt buf (s + i + 1) [0x3D]
      let buf ← storeAt buf (s + i + 2) [0]
      return (2, buf)
  else if i % 4 = 3 then
    if i ≥ bufSize - 1 then return (-1, buf)
    else
      let buf ← storeAt buf (s + i) [0x3D]
      let buf ← storeAt buf (s + i + 1) [0]
      return (1, buf)
  else if i % 4 = 0 then
    let buf ← storeAt buf (s + i) [0]
    return (0, buf)
  else return (-3, buf)

def decodeBase64 (buf : List Byte) (s : ℕ) (decoded : List Byte) (result : ℕ) :
    Exec (ℤ × List Byte) := do
  let _ ← stringAt buf s
  let (base64Rc, data) ← JsonWebToken.decodeBase64 (buf.drop s)
  let decoded ← storeAt decoded result data
  return (base64Rc, decoded)

/-! The parts -/

inductive Pointer
  | null
  | text (place : ℕ)
  | decoded (place : ℕ)
  deriving DecidableEq

structure State where
  base64Buf : List Byte
  decodedText : List Byte
  dparts : List Pointer
  pLen : List ℤ

def textPlace : Pointer → Exec ℕ
  | .text place => return place
  | _ => throw .undefinedBehaviour

/-- The loop over the parts, while there is room for one more. -/
def findParts : ℕ → State → ℕ → ℕ → Exec (State × Option ℕ × ℕ)
  | 0, s, tokenizer, i => do
    let (part, base64Buf, _) ← strtok_r s.base64Buf tokenizer
    return ({ s with base64Buf := base64Buf }, part, i)
  | room + 1, s, tokenizer, i => do
    let (part, base64Buf, tokenizer) ← strtok_r s.base64Buf tokenizer
    match part with
    | none => return ({ s with base64Buf := base64Buf }, none, i)
    | some part =>
      let dparts ← setAt s.dparts i (.text part)
      let text ← stringAt base64Buf part
      let pLen ← setAt s.pLen i (text.length + 1)
      findParts room ⟨base64Buf, s.decodedText, dparts, pLen⟩ tokenizer (i + 1)

def addRoom (pLen : List ℤ) (i : ℕ) : Exec (List ℤ) := do
  let n ← getAt pLen i
  setAt pLen i (n + BASE64URL_EXTRA_BYTES)

/-- The loop down from a part to the second one. -/
def moveParts : ℕ → State → Exec State
  | 0, s => return s
  | i + 1, s => do
    let part ← getAt s.dparts (i + 1)
    let place ← textPlace part
    let n ← getAt s.pLen (i + 1)
    let moved := place + (i + 1) * BASE64URL_EXTRA_BYTES
    let base64Buf ← memmove s.base64Buf moved place n
    let dparts ← setAt s.dparts (i + 1) (.text moved)
    let pLen ← addRoom s.pLen i
    moveParts i { s with base64Buf := base64Buf, dparts := dparts, pLen := pLen }

def decodeParts : ℕ → State → ℕ → ℕ → Exec (ℤ × State)
  | 0, s, i, _ => return (i, s)
  | left + 1, s, i, decodedText => do
    let part ← getAt s.dparts i
    let place ← textPlace part
    let n ← getAt s.pLen i
    let (base64Rc, base64Buf) ← base64urlToBase64 s.base64Buf place n
    let s := { s with base64Buf := base64Buf }
    if base64Rc < 0 then return (RC_JWT_INVALID_ENCODING, s)
    let (base64Rc, decoded) ← decodeBase64 base64Buf place s.decodedText decodedText
    if base64Rc < 0 then return (RC_JWT_INVALID_ENCODING, s)
    let dparts ← setAt s.dparts i (.decoded decodedText)
    let pLen ← setAt s.pLen i base64Rc
    let decodedText := decodedText + base64Rc.toNat
    let decoded ← storeAt decoded decodedText [0]
    decodeParts left { s with decodedText := decoded, dparts := dparts, pLen := pLen } (i + 1)
      (decodedText + 1)

/-- The number of a part is unsigned, so that the one before the first is `UINT_MAX`. -/
def extractParts (s : State) : Exec (ℤ × State) := do
  let (s, part, nParts) ← findParts MAX_NPARTS s 0 0
  if part.isSome then return (RC_JWT_EXTRA_PART, s)
  let pLen ← if 0 < nParts then addRoom s.pLen (nParts - 1) else pure s.pLen
  let s ← moveParts ((nParts + 4294967295) % 4294967296) { s with pLen := pLen }
  decodeParts nParts s 0 0

/-! The token -/

/-- The length of the text is kept in an `int`. -/
def base64Len (base64Text : CString) : ℤ := (BitVec.ofNat 32 base64Text.strlen).toInt

def State.copy (text : List Byte) : State where
  base64Buf := text ++ List.replicate (BASE64URL_EXTRA_BYTES_TOTAL + 1) 0
  decodedText := List.replicate (text.length + BASE64URL_EXTRA_BYTES_TOTAL + 1) 0
  dparts := List.replicate MAX_NPARTS .null
  pLen := List.replicate MAX_NPARTS 0

/-- A negative length is a huge size to copy. -/
def copyToken (base64Text : CString) : Exec State :=
  if base64Len base64Text < 0 then throw .undefinedBehaviour
  else return .copy (base64Text.bytes.take (base64Len base64Text).toNat)

/-- What is done before the header is read, or nothing if the encoding is not supported. -/
def split (base64Text : CString) (ebcdic : Bool) : Exec (Option (ℤ × State)) := do
  if 2 ^ 31 ≤ base64Len base64Text + BASE64URL_EXTRA_BYTES_TOTAL + 1 then throw .undefinedBehaviour
  if ebcdic then return none
  let s ← copyToken base64Text
  let (nparts, s) ← extractParts s
  return some (nparts, s)

def State.bytesAt (s : State) : Pointer → ℕ → List Byte
  | .null, _ => []
  | .text place, n => slice s.base64Buf place n
  | .decoded place, n => slice s.decodedText place n

/-- The bytes of a part, wherever it is. -/
def State.part (s : State) (i : ℕ) : List Byte :=
  s.bytesAt (s.dparts.getD i .null) (s.pLen.getD i 0).toNat

def jwtParse (convert : List Byte → Option (List Byte)) (fuel : ℕ) (base64Text : CString)
    (ebcdic : Bool) (self : JwtContext) : Exec (ℤ × Option Jwt) := do
  match ← split base64Text ebcdic with
  | none => return (RC_JWT_INVALID_ENCODING, none)
  | some (nparts, s) =>
    if nparts < 0 then return (nparts, none)
    if nparts < 1 then return (RC_JWT_MISSING_PART, none)
    match ← readHeader convert fuel (s.part 0) with
    | .error rc => return (rc, none)
    | .ok header =>
      if nparts < 2 then return (RC_JWT_MISSING_PART, none)
      match ← readClaims convert fuel (s.part 1) (emptyJwt header) with
      | .error rc => return (rc, none)
      | .ok jwt =>
        let message := signedText nparts (base64Text.bytes.take (base64Len base64Text).toNat)
        let rc := self.checkSignatureFn header.algorithm (s.part 2) message
        if rc ≠ RC_JWT_OK ∧ rc ≠ RC_JWT_INSECURE then return (rc, none)
        else return (rc, some jwt)

/-! Accesses to pieces of a list -/

section accesses

variable {α : Type} {xs ys : List α} {i : ℕ}

theorem getAt_append (x : α) (hi : i = xs.length) : getAt (xs ++ x :: ys) i = .ok x := by
  subst hi
  unfold getAt
  rw [List.getElem?_append_right le_rfl, Nat.sub_self]
  rfl

theorem setAt_append (x y : α) (hi : i = xs.length) :
    setAt (xs ++ x :: ys) i y = .ok (xs ++ y :: ys) := by
  subst hi
  unfold setAt
  rw [if_pos (by simp), List.set_append_right _ _ le_rfl, Nat.sub_self]
  rfl

end accesses

section buffers

variable {pre s s' post : List Byte} {place : ℕ}

theorem storeAt_append (hplace : place = pre.length) (hlength : s'.length = s.length) :
    storeAt (pre ++ (s ++ post)) place s' = .ok (pre ++ (s' ++ post)) := by
  unfold storeAt
  rw [if_pos, Slices.splice_append hplace hlength]
  · rfl
  · rw [List.length_append, List.length_append]
    omega

theorem stringAt_append (hs : NoNul s) (hplace : place = pre.length) :
    stringAt (pre ++ (s ++ 0 :: post)) place = .ok s := by
  have hstring : (s ++ 0 :: post).takeWhile (· ≠ 0) = s := by
    rw [List.takeWhile_append_of_pos (fun c hc => by simpa using hs c hc),
      List.takeWhile_cons_of_neg (by simp), List.append_nil]
  subst hplace
  unfold stringAt
  rw [List.drop_left, hstring, if_pos]
  · rfl
  · rw [List.length_append, List.length_append, List.length_cons]
    omega

end buffers

/-! The next part of a text -/

/-- What is left of a text, and the part that it begins with, if there is one. -/
structure Next (t dots part rest : List Byte) : Prop where
  eq_append : t = dots ++ (part ++ rest)
  periods : ∀ c ∈ dots, c = ASCII_PERIOD
  noPeriod : ∀ c ∈ part, c ≠ ASCII_PERIOD
  endsPart : EndsPart rest
  nothing : part = [] → rest = []

theorem exists_next (t : List Byte) : ∃ dots part rest, Next t dots part rest := by
  obtain ⟨part, rest, hdrop, hpart, hrest⟩ := exists_part (t.dropWhile (· = ASCII_PERIOD))
  refine ⟨t.takeWhile (· = ASCII_PERIOD), part, rest, ?_, ?_, hpart, hrest, ?_⟩
  · rw [← hdrop, List.takeWhile_append_dropWhile]
  · intro c hc
    simpa using List.mem_takeWhile_imp hc
  · rintro rfl
    rcases hrest with rfl | ⟨s, rfl⟩
    · rfl
    · have hne : t.dropWhile (fun c => decide (c = ASCII_PERIOD)) ≠ [] := by
        rw [hdrop]
        exact List.cons_ne_nil _ _
      have hhead := List.head_dropWhile_not _ hne
      simp [hdrop] at hhead

namespace Next

variable {t dots part rest : List Byte} (h : Next t dots part rest)
include h

theorem takeWhile_dots : t.takeWhile (· = ASCII_PERIOD) = dots ∧
    t.dropWhile (· = ASCII_PERIOD) = part ++ rest := by
  have hall : ∀ c ∈ dots, decide (c = ASCII_PERIOD) = true := fun c hc => by
    simpa using h.periods c hc
  rw [h.eq_append, List.takeWhile_append_of_pos hall, List.dropWhile_append_of_pos hall]
  cases hcases : part with
  | nil =>
    rw [h.nothing hcases]
    exact ⟨List.append_nil dots, rfl⟩
  | cons c s =>
    have hc : c ≠ ASCII_PERIOD := h.noPeriod c (by rw [hcases]; exact List.mem_cons_self)
    rw [List.cons_append]
    constructor
    · rw [List.takeWhile_cons_of_neg (by simpa using hc), List.append_nil]
    · rw [List.dropWhile_cons_of_neg (by simpa using hc)]

theorem strtok_r_none (hnil : part = []) : JsonWebToken.strtok_r t = none := by
  unfold JsonWebToken.strtok_r
  rw [h.takeWhile_dots.2, hnil, h.nothing hnil]
  rfl

theorem strtok_r_some (hne : part ≠ []) : JsonWebToken.strtok_r t = some (part ++ rest) := by
  obtain ⟨c, s, rfl⟩ := List.exists_cons_of_ne_nil hne
  unfold JsonWebToken.strtok_r
  rw [h.takeWhile_dots.2]
  rfl

theorem length : t.length = dots.length + (part.length + rest.length) := by
  rw [h.eq_append, List.length_append, List.length_append]

section memory

variable (hnoNul : NoNul t) (pre zeros : List Byte)
include hnoNul

theorem memory_strtok_r : strtok_r (pre ++ (t ++ 0 :: zeros)) pre.length =
    if part = [] then
      .ok (none, pre ++ (t ++ 0 :: zeros), pre.length + dots.length + part.length)
    else if pre.length + dots.length + part.length = pre.length + t.length then
      .ok (some (pre.length + dots.length), pre ++ (t ++ 0 :: zeros),
        pre.length + dots.length + part.length)
    else do
      let buf ← storeAt (pre ++ (t ++ 0 :: zeros)) (pre.length + dots.length + part.length) [0]
      return (some (pre.length + dots.length), buf, pre.length + dots.length + part.length + 1) := by
  obtain ⟨hdots, hpart⟩ := h.takeWhile_dots
  have htext : (part ++ rest).takeWhile (· ≠ ASCII_PERIOD) = part :=
    partText_append h.noPeriod h.endsPart
  unfold strtok_r
  rw [stringAt_append hnoNul rfl, Exec.ok_bind]
  simp only [hdots, hpart, htext, Exec.pure_eq_ok]

theorem memory_strtok_r_none (hnil : part = []) : ∃ tokenizer,
    strtok_r (pre ++ (t ++ 0 :: zeros)) pre.length =
      .ok (none, pre ++ (t ++ 0 :: zeros), tokenizer) := by
  rw [h.memory_strtok_r hnoNul, if_pos hnil]
  exact ⟨_, rfl⟩

theorem memory_strtok_r_last (hne : part ≠ []) (hrest : rest = []) :
    strtok_r (pre ++ (t ++ 0 :: zeros)) pre.length =
      .ok (some (pre.length + dots.length), pre ++ (t ++ 0 :: zeros), (pre ++ t).length) := by
  have hlength := h.length
  rw [hrest, List.length_nil] at hlength
  rw [h.memory_strtok_r hnoNul, if_neg hne, if_pos (by omega), List.length_append, hlength,
    Nat.add_zero, Nat.add_assoc]

theorem memory_strtok_r_some (hne : part ≠ []) {s : List Byte} (hrest : rest = ASCII_PERIOD :: s) :
    strtok_r (pre ++ (t ++ 0 :: zeros)) pre.length =
      .ok (some (pre.length + dots.length), (pre ++ (dots ++ (part ++ [0]))) ++ (s ++ 0 :: zeros),
        (pre ++ (dots ++ (part ++ [0]))).length) := by
  have hlength := h.length
  rw [hrest, List.length_cons] at hlength
  have hbuf : pre ++ (t ++ 0 :: zeros) =
      (pre ++ (dots ++ part)) ++ ([ASCII_PERIOD] ++ (s ++ 0 :: zeros)) := by
    rw [h.eq_append, hrest]
    simp only [List.append_assoc, List.cons_append, List.nil_append]
  rw [h.memory_strtok_r hnoNul, if_neg hne, if_neg (by omega), hbuf,
    storeAt_append (by rw [List.length_append, List.length_append]; omega) (by rfl), Exec.ok_bind]
  simp only [List.append_assoc, List.length_append, List.length_singleton, Nat.add_assoc,
    Exec.pure_eq_ok]

end memory

end Next

/-! The places of the parts -/

def spans : ℕ → ℕ → List Byte → List (ℕ × List Byte)
  | 0, _, _ => []
  | calls + 1, place, t =>
    match JsonWebToken.strtok_r t with
    | none => []
    | some s =>
      let start := place + (t.length - s.length)
      (start, s) :: spans calls (start + (partText s).length + 1) (s.dropWhile (· ≠ ASCII_PERIOD)).tail

theorem map_snd_spans (calls place : ℕ) (t : List Byte) :
    (spans calls place t).map Prod.snd = JsonWebToken.findParts calls t := by
  induction calls generalizing place t with
  | zero => rfl
  | succ calls ih =>
    rw [spans, JsonWebToken.findParts]
    cases JsonWebToken.strtok_r t with
    | none => rfl
    | some s =>
      dsimp only
      rw [List.map_cons, ih]

theorem take_spans (calls place : ℕ) (t : List Byte) :
    (spans (calls + 1) place t).take calls = spans calls place t := by
  induction calls generalizing place t with
  | zero => rfl
  | succ calls ih =>
    rw [spans, spans]
    cases JsonWebToken.strtok_r t with
    | none => rfl
    | some s =>
      dsimp only
      rw [List.take_succ_cons, ih]

theorem Next.spans_none {t dots part rest : List Byte} (h : Next t dots part rest) (hnil : part = [])
    (calls place : ℕ) : spans calls place t = [] := by
  cases calls with
  | zero => rfl
  | succ calls => rw [spans, h.strtok_r_none hnil]

theorem Next.spans_some {t dots part rest : List Byte} (h : Next t dots part rest) (hne : part ≠ [])
    (calls place : ℕ) : spans (calls + 1) place t = (place + dots.length, part ++ rest) ::
      spans calls (place + dots.length + part.length + 1) rest.tail := by
  have hlength : t.length - (part ++ rest).length = dots.length := by
    rw [h.eq_append, List.length_append, Nat.add_sub_cancel]
  rw [spans, h.strtok_r_some hne]
  dsimp only
  rw [hlength, partText_append h.noPeriod h.endsPart, dropWhile_append h.noPeriod h.endsPart]


theorem spans_nil (calls place : ℕ) : spans calls place [] = [] := by
  cases calls with
  | zero => rfl
  | succ calls => rfl

/-- A part is there, and the next one is beyond the terminator. -/
theorem spans_apart (calls place : ℕ) (t : List Byte) :
    (spans calls place t).Pairwise (fun p q => p.1 + (partText p.2).length + 1 ≤ q.1) ∧
      ∀ p ∈ spans calls place t, place ≤ p.1 ∧ p.1 + (partText p.2).length ≤ place + t.length := by
  induction calls generalizing place t with
  | zero => exact ⟨.nil, List.forall_mem_nil _⟩
  | succ calls ih =>
    obtain ⟨dots, part, rest, h⟩ := exists_next t
    by_cases hne : part = []
    · rw [h.spans_none hne]
      exact ⟨.nil, List.forall_mem_nil _⟩
    · have hlength := h.length
      have htail := List.length_tail (l := rest)
      obtain ⟨hpairwise, hwithin⟩ := ih (place + dots.length + part.length + 1) rest.tail
      rw [h.spans_some hne, List.pairwise_cons, List.forall_mem_cons]
      simp only [partText_append h.noPeriod h.endsPart]
      refine ⟨⟨fun p hp => (hwithin p hp).1, hpairwise⟩, ⟨by omega, by omega⟩, ?_⟩
      intro p hp
      have hbounds := hwithin p hp
      have hrest : rest ≠ [] := by
        rintro rfl
        rw [List.tail_nil, spans_nil] at hp
        exact List.not_mem_nil hp
      have hpos := List.length_pos_iff.mpr hrest
      omega

theorem sum_spans (calls place : ℕ) (t : List Byte) :
    ((spans calls place t).map fun p => (partText p.2).length + 1).sum ≤ t.length + 1 := by
  induction calls generalizing place t with
  | zero => exact Nat.zero_le _
  | succ calls ih =>
    obtain ⟨dots, part, rest, h⟩ := exists_next t
    by_cases hne : part = []
    · rw [h.spans_none hne]
      exact Nat.zero_le _
    · have hlength := h.length
      have hrest := ih (place + dots.length + part.length + 1) rest.tail
      rw [h.spans_some hne, List.map_cons, List.sum_cons]
      simp only [partText_append h.noPeriod h.endsPart]
      cases hcases : rest with
      | nil =>
        rw [List.tail_nil, spans_nil, List.map_nil, List.sum_nil]
        omega
      | cons c s =>
        rw [hcases, List.tail_cons] at hrest
        rw [hcases, List.length_cons] at hlength
        rw [List.tail_cons]
        omega

theorem Next.terminated {t dots part rest : List Byte} (h : Next t dots part rest) :
    JsonWebToken.terminated false t = dots ++ JsonWebToken.terminated false (part ++ rest) := by
  obtain ⟨happend, hdots, -, -, -⟩ := h
  subst happend
  induction dots with
  | nil => rfl
  | cons c dots ih =>
    rw [List.forall_mem_cons] at hdots
    rw [List.cons_append, JsonWebToken.terminated, if_pos hdots.1, if_neg (by decide),
      ih hdots.2, List.cons_append]

theorem Next.terminated_some {t dots part rest : List Byte} (h : Next t dots part rest)
    (hne : part ≠ []) {s : List Byte} (hrest : rest = ASCII_PERIOD :: s) :
    JsonWebToken.terminated false t =
      (dots ++ (part ++ [0])) ++ JsonWebToken.terminated false s := by
  rw [h.terminated, terminated_append h.noPeriod false (Or.inl hne), hrest,
    JsonWebToken.terminated, if_pos rfl, if_pos rfl]
  simp only [List.append_assoc, List.singleton_append]

/-- Once all the parts are terminated. -/
theorem drop_terminated_spans (calls place : ℕ) (t : List Byte) :
    ∀ p ∈ spans calls place t, ∃ k, p.1 = place + k ∧
      (terminated false t).drop k = terminated false p.2 := by
  induction calls generalizing place t with
  | zero => exact List.forall_mem_nil _
  | succ calls ih =>
    obtain ⟨dots, part, rest, h⟩ := exists_next t
    by_cases hne : part = []
    · rw [h.spans_none hne]
      exact List.forall_mem_nil _
    · rw [h.spans_some hne, List.forall_mem_cons]
      constructor
      · refine ⟨dots.length, rfl, ?_⟩
        rw [h.terminated, List.drop_left]
      · intro p hp
        rcases h.endsPart with hrest | ⟨s, hrest⟩
        · rw [hrest, List.tail_nil, spans_nil] at hp
          exact absurd hp List.not_mem_nil
        · rw [hrest, List.tail_cons] at hp
          obtain ⟨k, hk, hdrop⟩ := ih _ s p hp
          refine ⟨dots.length + part.length + 1 + k, by omega, ?_⟩
          have hlength : dots.length + part.length + 1 = (dots ++ (part ++ [0])).length := by
            rw [List.length_append, List.length_append]
            rfl
          rw [h.terminated_some hne hrest, hlength, ← List.drop_drop, List.drop_left, hdrop]

theorem Next.rawPart {t dots part rest : List Byte} (h : Next t dots part rest) (hne : part ≠ []) :
    rawPart (part ++ rest) = part ++ [0] := by
  obtain ⟨x, y, s, hrest⟩ := terminated_rest h.endsPart
  have hlength : part.length + 1 = (part ++ [(0 : Byte)]).length := by rw [List.length_append]; rfl
  unfold JsonWebToken.rawPart
  rw [partText_append h.noPeriod h.endsPart, terminated_append h.noPeriod false (Or.inl hne), hrest,
    List.append_cons, hlength, List.take_left]

def zeros : List Byte := List.replicate BASE64URL_EXTRA_BYTES_TOTAL 0

def textPointers (found : List (ℕ × List Byte)) : List Pointer := found.map fun p => .text p.1

def rawLengths (found : List (ℕ × List Byte)) : List ℤ :=
  found.map fun p => ((partText p.2).length + 1 : ℕ)

theorem Next.terminated_nil {t dots part rest : List Byte} (h : Next t dots part rest)
    (hnil : part = []) : JsonWebToken.terminated false t = t ++ 0 :: zeros := by
  have htext := h.eq_append
  rw [hnil, h.nothing hnil, List.append_nil, List.append_nil] at htext
  rw [h.terminated, hnil, h.nothing hnil, htext]
  rfl

theorem findParts_some {room : ℕ} {buf buf' text d : List Byte} {tokenizer tokenizer' place : ℕ}
    {A A' : List Pointer} {B B' : List ℤ} {i : ℕ} (hA : i = A.length) (hB : i = B.length)
    (hfound : strtok_r buf tokenizer = .ok (some place, buf', tokenizer'))
    (htext : stringAt buf' place = .ok text) :
    findParts (room + 1) ⟨buf, d, A ++ .null :: A', B ++ 0 :: B'⟩ tokenizer i =
      findParts room ⟨buf', d, (A ++ [.text place]) ++ A', (B ++ [(text.length + 1 : ℤ)]) ++ B'⟩
        tokenizer' (i + 1) := by
  rw [findParts]
  simp only [hfound, Exec.ok_bind, setAt_append _ _ hA, htext, setAt_append _ _ hB,
    List.append_assoc, List.singleton_append]

theorem findParts_none {room : ℕ} {buf d : List Byte} {tokenizer tokenizer' : ℕ}
    {A : List Pointer} {B : List ℤ} (hfound : strtok_r buf tokenizer = .ok (none, buf, tokenizer'))
    (i : ℕ) : findParts room ⟨buf, d, A, B⟩ tokenizer i = .ok (⟨buf, d, A, B⟩, none, i) := by
  cases room with
  | zero => simp only [findParts, hfound, Exec.ok_bind, Exec.pure_eq_ok]
  | succ room => simp only [findParts, hfound, Exec.ok_bind, Exec.pure_eq_ok]

/-- What the loop over the parts leaves, and whether there is one part too many. -/
structure Found (room : ℕ) (t pre buf : List Byte) (extra : Option ℕ) : Prop where
  length_eq : buf.length = t.length + (0 :: zeros).length
  extra_iff : extra.isSome = true ↔ room < (spans (room + 1) pre.length t).length
  buf_eq : extra = none → buf = terminated false t
  raw : ∀ p ∈ spans room pre.length t,
    slice (pre ++ buf) p.1 ((partText p.2).length + 1) = rawPart p.2

theorem Next.found_none {t dots part rest : List Byte} (h : Next t dots part rest)
    (hnil : part = []) (room : ℕ) (pre : List Byte) : Found room t pre (t ++ 0 :: zeros) none where
  length_eq := List.length_append
  extra_iff := by simp [h.spans_none hnil]
  buf_eq _ := (h.terminated_nil hnil).symm
  raw := by
    rw [h.spans_none hnil]
    exact List.forall_mem_nil _

structure Advance (dots part rest done left : List Byte) (t : List Byte) : Prop where
  length_eq : t.length = done.length + left.length
  terminated_eq : terminated false t = done ++ terminated false left
  spans_eq (calls place : ℕ) :
    spans calls (place + dots.length + part.length + 1) rest.tail =
      spans calls (place + done.length) left
  atEnd : done = dots ++ (part ++ [0]) ∨ done = dots ++ part ∧ left = []

theorem Next.advance {t dots part rest : List Byte} (h : Next t dots part rest) (hnoNul : NoNul t)
    (hne : part ≠ []) (pre : List Byte) : ∃ done left, Advance dots part rest done left t ∧
      NoNul left ∧ strtok_r (pre ++ (t ++ 0 :: zeros)) pre.length =
        .ok (some (pre.length + dots.length), (pre ++ done) ++ (left ++ 0 :: zeros),
          (pre ++ done).length) := by
  rcases h.endsPart with hrest | ⟨s, hrest⟩
  · have htext : t = dots ++ part := by rw [h.eq_append, hrest, List.append_nil]
    refine ⟨t, [], ⟨rfl, ?_, ?_, Or.inr ⟨htext, rfl⟩⟩, NoNul.nil, ?_⟩
    · rw [h.terminated, hrest, terminated_append h.noPeriod false (Or.inl hne), htext,
        List.append_assoc]
      rfl
    · intro calls place
      rw [hrest, List.tail_nil, spans_nil, spans_nil]
    · rw [h.memory_strtok_r_last hnoNul pre zeros hne hrest, List.nil_append, List.append_assoc]
  · have hlength := h.length
    rw [hrest, List.length_cons] at hlength
    have hnoNul' : NoNul s := by
      intro c hc
      apply hnoNul c
      rw [h.eq_append, hrest]
      simp [hc]
    refine ⟨dots ++ (part ++ [0]), s, ⟨?_, h.terminated_some hne hrest, ?_, Or.inl rfl⟩, hnoNul',
      h.memory_strtok_r_some hnoNul pre zeros hne hrest⟩
    · rw [List.length_append, List.length_append, List.length_singleton]
      omega
    · intro calls place
      rw [hrest, List.tail_cons, List.length_append, List.length_append, List.length_singleton,
        ← Nat.add_assoc, ← Nat.add_assoc]

/-- A part that was found is there, terminated, whatever comes after it. -/
theorem Advance.part_there {dots part rest done left t : List Byte}
    (h : Advance dots part rest done left t) (pre buf : List Byte)
    (hbuf : left = [] → buf = 0 :: zeros) :
    ∃ post, pre ++ (done ++ buf) = (pre ++ dots) ++ (part ++ 0 :: post) := by
  rcases h.atEnd with hdone | ⟨hdone, hleft⟩
  · refine ⟨buf, ?_⟩
    rw [hdone]
    simp only [List.append_assoc, List.singleton_append]
  · refine ⟨zeros, ?_⟩
    rw [hdone, hbuf hleft]
    simp only [List.append_assoc]

theorem memory_findParts (room : ℕ) {t : List Byte} (hnoNul : NoNul t) (pre d : List Byte)
    (A : List Pointer) (B : List ℤ) {i : ℕ} (hA : i = A.length) (hB : i = B.length) :
    ∃ buf extra, findParts room
        ⟨pre ++ (t ++ 0 :: zeros), d, A ++ List.replicate room .null, B ++ List.replicate room 0⟩
        pre.length i =
      .ok (⟨pre ++ buf, d,
          A ++ (textPointers (spans room pre.length t) ++
            List.replicate (room - (spans room pre.length t).length) .null),
          B ++ (rawLengths (spans room pre.length t) ++
            List.replicate (room - (spans room pre.length t).length) 0)⟩,
        extra, i + (spans room pre.length t).length) ∧
      Found room t pre buf extra := by
  induction room generalizing t pre A B i with
  | zero =>
    obtain ⟨dots, part, rest, h⟩ := exists_next t
    by_cases hne : part = []
    · obtain ⟨tokenizer, hnone⟩ := h.memory_strtok_r_none hnoNul pre zeros hne
      exact ⟨t ++ 0 :: zeros, none, findParts_none hnone i, h.found_none hne 0 pre⟩
    · obtain ⟨done, left, hadvance, -, hfound⟩ := h.advance hnoNul hne pre
      refine ⟨done ++ (left ++ 0 :: zeros), some (pre.length + dots.length), ?_, ?_, ?_, fun h => absurd h (by simp), ?_⟩
      · simp only [findParts, hfound, Exec.ok_bind, Exec.pure_eq_ok, List.append_assoc]
        rfl
      · rw [List.length_append, List.length_append, ← Nat.add_assoc, ← hadvance.length_eq]
      · rw [h.spans_some hne]
        simp
      · exact List.forall_mem_nil _
  | succ room ih =>
    obtain ⟨dots, part, rest, h⟩ := exists_next t
    by_cases hne : part = []
    · obtain ⟨tokenizer, hnone⟩ := h.memory_strtok_r_none hnoNul pre zeros hne
      rw [h.spans_none hne]
      exact ⟨t ++ 0 :: zeros, none, findParts_none hnone i, h.found_none hne _ pre⟩
    · obtain ⟨done, left, hadvance, hnoNul', hfound⟩ := h.advance hnoNul hne pre
      obtain ⟨post, hpost⟩ := hadvance.part_there pre (left ++ 0 :: zeros) (by
        rintro rfl
        rfl)
      have hpart : NoNul part := by
        intro c hc
        apply hnoNul c
        rw [h.eq_append]
        simp [hc]
      have htext : stringAt ((pre ++ done) ++ (left ++ 0 :: zeros)) (pre.length + dots.length) =
          .ok part := by
        rw [List.append_assoc, hpost]
        exact stringAt_append hpart List.length_append.symm
      obtain ⟨buf, extra, hrun, hbuf⟩ := ih hnoNul' (pre ++ done)
        (A ++ [.text (pre.length + dots.length)]) (B ++ [(part.length + 1 : ℤ)]) (i := i + 1)
        (by rw [List.length_append, hA]; rfl) (by rw [List.length_append, hB]; rfl)
      have hspans := hadvance.spans_eq room pre.length
      rw [List.length_append] at hrun
      refine ⟨done ++ buf, extra, ?_, ?_, ?_, ?_, ?_⟩
      · rw [List.replicate_succ, List.replicate_succ, findParts_some hA hB hfound htext,
          List.length_append, hrun, h.spans_some hne, hspans]
        simp only [textPointers, rawLengths, List.map_cons, List.length_cons, List.append_assoc,
          List.cons_append, List.nil_append, Nat.add_sub_add_right, Nat.cast_add, Nat.cast_one,
          partText_append h.noPeriod h.endsPart]
        rw [Nat.add_assoc, Nat.add_comm 1]
      · rw [List.length_append, hbuf.length_eq, hadvance.length_eq, Nat.add_assoc]
      · rw [hbuf.extra_iff, h.spans_some hne, hadvance.spans_eq, List.length_cons, List.length_append]
        omega
      · intro hnone
        rw [hadvance.terminated_eq, hbuf.buf_eq hnone]
      · rw [h.spans_some hne, List.forall_mem_cons]
        constructor
        · have hlength : part.length + 1 = (part ++ [(0 : Byte)]).length := by rw [List.length_append]; rfl
          obtain ⟨post, hpost⟩ := hadvance.part_there pre buf (by
            rintro rfl
            apply hbuf.buf_eq
            rw [← Option.not_isSome_iff_eq_none, hbuf.extra_iff, spans_nil]
            exact Nat.not_lt_zero _)
          rw [hpost, partText_append h.noPeriod h.endsPart, h.rawPart hne, List.append_cons]
          exact Slices.slice_append List.length_append.symm hlength
        · rw [hspans, ← List.append_assoc, ← List.length_append]
          exact hbuf.raw

end Memory
end JsonWebToken
end ZoweCommon
