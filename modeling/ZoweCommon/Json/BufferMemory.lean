import ZoweCommon.Basic.Exec
import ZoweCommon.Json.PrinterText
import ZoweCommon.Lib.Slices

/-! The buffer of a printer as it lies in memory, every store into it checked. -/
namespace ZoweCommon
namespace BufferMemory

open CString
open Slices (slice splice)

/-- The block, and the two numbers that say how large it is and how much of it is in use. -/
structure JsonBuffer where
  data : List Byte
  size : ℤ
  len : ℤ
  deriving DecidableEq

structure JsonPrinter where
  customObject : JsonBuffer
  ioErrorFlag : Bool
  deriving DecidableEq

/-- The bytes have to be stored within the block. -/
def store (data : List Byte) (index : ℤ) (bytes : List Byte) : Exec (List Byte) :=
  if 0 ≤ index ∧ index + bytes.length ≤ data.length then return splice data index.toNat bytes
  else throw .undefinedBehaviour

/-- For which sizes there is a block. In the course of one write, none is asked for twice. -/
abbrev Heap := ℤ → Bool

namespace Heap

def safeMalloc (heap : Heap) (size : ℤ) : Option (List Byte) :=
  if heap size then some (List.replicate size.toNat 0) else none

def safeRealloc (heap : Heap) (ptr : List Byte) (size oldSize : ℤ) : Exec (Option (List Byte)) :=
  match heap.safeMalloc size with
  | none => return none
  | some new =>
    if oldSize > 0 then do
      if oldSize > ptr.length then throw .undefinedBehaviour
      return some (← store new 0 (ptr.take oldSize.toNat))
    else return some new

end Heap

/-- The two blocks are taken to have been given. -/
def makeJsonBuffer : JsonBuffer where
  data := List.replicate JSON_BUF_DEFAULT_SIZE 0
  size := JSON_BUF_DEFAULT_SIZE
  len := 0

def makeCustomJsonPrinter (buf : JsonBuffer) : JsonPrinter where
  customObject := buf
  ioErrorFlag := false

namespace JsonBuffer

def jsonBufferTerminateString (buf : JsonBuffer) : Exec JsonBuffer := do
  let data ← store buf.data buf.len [0]
  return { buf with data := data, len := buf.len + 1 }

/-- The block is filled with the digit, not with zeros. -/
def jsonBufferRewind (buf : JsonBuffer) : Exec JsonBuffer := do
  let data ← store buf.data 0 (List.replicate buf.size.toNat 0x30)
  return { buf with data := data, len := 0 }

/-- Whether the loop ends without an error, and the buffer then. -/
def growFrom (heap : Heap) (len : ℤ) : ℕ → JsonBuffer → Exec (Bool × JsonBuffer)
  | 0, _ => throw .nonTermination
  | fuel + 1, buf =>
    if buf.size - buf.len < len then
      if buf.size > INT32_MAX / 2 then return (false, buf)
      else do
        match ← heap.safeRealloc buf.data (2 * buf.size) buf.size with
        | none => return (false, buf)
        | some newData =>
          growFrom heap len fuel { buf with size := 2 * buf.size, data := newData }
    else return (true, buf)

/-- No `int` above zero can be doubled more often. -/
def grow (heap : Heap) (len : ℤ) (buf : JsonBuffer) : Exec (Bool × JsonBuffer) :=
  buf.growFrom heap len 32

end JsonBuffer

namespace JsonPrinter

def writeToBuffer (heap : Heap) (p : JsonPrinter) (text : List Byte) : Exec JsonPrinter := do
  let (hasRoom, buf) ← p.customObject.grow heap text.length
  if hasRoom then
    let data ← store buf.data buf.len text
    return { p with customObject := { buf with data := data, len := buf.len + text.length } }
  else return { customObject := buf, ioErrorFlag := true }

def jsonWriteBufferInternal (heap : Heap) (p : JsonPrinter) (text : List Byte) :
    Exec JsonPrinter :=
  if p.ioErrorFlag then return p else p.writeToBuffer heap text

end JsonPrinter

/-- What is called of a buffer and its printer. -/
inductive Call
  | write (heap : Heap) (text : List Byte)
  | jsonBufferTerminateString
  | jsonBufferRewind

def Call.run (p : JsonPrinter) : Call → Exec JsonPrinter
  | .write heap text => p.jsonWriteBufferInternal heap text
  | .jsonBufferTerminateString => do
    return { p with customObject := ← p.customObject.jsonBufferTerminateString }
  | .jsonBufferRewind => do
    return { p with customObject := ← p.customObject.jsonBufferRewind }

/-- The calls one after the other, from a new printer into a new buffer. -/
def run (calls : List Call) : Exec JsonPrinter :=
  calls.foldlM Call.run (makeCustomJsonPrinter makeJsonBuffer)

/-! Stores, and what a buffer in memory represents -/

theorem store_eq {data bytes : List Byte} {index : ℕ} (h : index + bytes.length ≤ data.length) :
    store data index bytes = .ok (splice data index bytes) := by
  unfold store
  rw [if_pos ⟨Int.natCast_nonneg _, by omega⟩, Int.toNat_natCast]
  rfl

theorem lt_of_store_eq_ok {data data' : List Byte} {index : ℤ} {c : Byte}
    (h : store data index [c] = .ok data') : index < data.length := by
  unfold store at h
  split at h
  · next hwithin =>
    have hle := hwithin.2
    rw [List.length_singleton] at hle
    omega
  · cases h

/-- The buffer in memory has room for what the other one holds, and holds it. -/
structure Represents (buf : JsonBuffer) (content : ZoweCommon.JsonBuffer) : Prop where
  length_data : buf.data.length = content.size
  size_eq : buf.size = content.size
  len_eq : buf.len = content.data.length
  take_data : buf.data.take content.data.length = content.data

theorem represents_makeJsonBuffer : Represents makeJsonBuffer ZoweCommon.makeJsonBuffer where
  length_data := List.length_replicate
  size_eq := rfl
  len_eq := rfl
  take_data := rfl

/-- An empty buffer of the same size. -/
def emptied (content : ZoweCommon.JsonBuffer) : ZoweCommon.JsonBuffer where
  data := []
  size := content.size
  size_eq := content.size_eq
  len_le := Nat.zero_le _

namespace Represents

variable {buf : JsonBuffer} {content : ZoweCommon.JsonBuffer} (hrep : Represents buf content)
include hrep

/-- What is stored behind the bytes in use comes to be in use. -/
theorem append (bytes : List Byte) (h : content.data.length + bytes.length ≤ content.size) :
    ∃ data, store buf.data buf.len bytes = .ok data ∧
      Represents { buf with data := data, len := buf.len + bytes.length }
        (content.append bytes h) := by
  have hwithin : content.data.length + bytes.length ≤ buf.data.length := by
    rw [hrep.length_data]
    exact h
  refine ⟨splice buf.data content.data.length bytes, by rw [hrep.len_eq, store_eq hwithin], ?_⟩
  exact
    { length_data := (Slices.length_splice hwithin).trans hrep.length_data
      size_eq := hrep.size_eq
      len_eq := by
        dsimp only [ZoweCommon.JsonBuffer.append]
        rw [hrep.len_eq, List.length_append, Nat.cast_add]
      take_data := by
        dsimp only [ZoweCommon.JsonBuffer.append]
        rw [List.length_append, Slices.take_splice hwithin, hrep.take_data] }

theorem jsonBufferTerminateString (h : content.data.length + 1 ≤ content.size) :
    ∃ buf', buf.jsonBufferTerminateString = .ok buf' ∧ Represents buf' (content.append [0] h) := by
  obtain ⟨data, hstore, hrep'⟩ := hrep.append [0] h
  refine ⟨_, ?_, hrep'⟩
  unfold JsonBuffer.jsonBufferTerminateString
  rw [hstore]
  rfl

theorem jsonBufferRewind :
    ∃ buf', buf.jsonBufferRewind = .ok buf' ∧ Represents buf' (emptied content) := by
  let digits : List Byte := List.replicate buf.size.toNat 0x30
  have hwithin : 0 + digits.length ≤ buf.data.length := by
    rw [List.length_replicate, hrep.size_eq, Int.toNat_natCast, hrep.length_data, Nat.zero_add]
  have hstore : store buf.data 0 digits = .ok (splice buf.data 0 digits) := @store_eq _ _ 0 hwithin
  refine ⟨{ buf with data := splice buf.data 0 digits, len := 0 }, ?_, ?_⟩
  · unfold JsonBuffer.jsonBufferRewind
    rw [hstore]
    rfl
  · exact
      { length_data := (Slices.length_splice hwithin).trans hrep.length_data
        size_eq := hrep.size_eq
        len_eq := rfl
        take_data := rfl }

/-! Growing -/

theorem safeRealloc (heap : Heap) :
    heap.safeRealloc buf.data (2 * buf.size) buf.size = .ok
      (if heap (2 * buf.size) then some (buf.data ++ List.replicate content.size 0) else none) := by
  have hpos := content.size_pos
  unfold Heap.safeRealloc Heap.safeMalloc
  by_cases hgiven : heap (2 * buf.size) = true
  · have htwice : List.replicate (2 * content.size) (0 : Byte) =
        buf.data.map (fun _ => 0) ++ List.replicate content.size 0 := by
      rw [List.map_const', hrep.length_data, ← List.replicate_add, two_mul]
    have hsize : (2 * buf.size).toNat = 2 * content.size := by rw [hrep.size_eq]; omega
    have hwithin : 0 + buf.data.length ≤
        (List.replicate (2 * content.size) (0 : Byte)).length := by
      rw [List.length_replicate, hrep.length_data]
      omega
    have hstore : store (List.replicate (2 * content.size) 0) 0 buf.data = .ok
        (splice (List.replicate (2 * content.size) 0) 0 buf.data) := @store_eq _ _ 0 hwithin
    have hsplice : splice (List.replicate (2 * content.size) 0) 0 buf.data =
        buf.data ++ List.replicate content.size 0 := by
      rw [htwice]
      exact @Slices.splice_append _ [] _ _ _ 0 rfl (List.length_map _).symm
    have htake : buf.data.take content.size = buf.data :=
      List.take_of_length_le hrep.length_data.le
    rw [if_pos hgiven, if_pos hgiven, hsize]
    dsimp only
    rw [hrep.size_eq, if_pos (by omega), if_neg (by rw [hrep.length_data]; omega),
      Int.toNat_natCast, htake, hstore, hsplice]
    rfl
  · rw [if_neg hgiven, if_neg hgiven]
    rfl

theorem double (h : ¬content.size > INT32_MAX / 2) :
    Represents
      { buf with size := 2 * buf.size, data := buf.data ++ List.replicate content.size 0 }
      (content.double h) where
  length_data := by
    rw [List.length_append, List.length_replicate, hrep.length_data, ← two_mul]
    rfl
  size_eq := by
    rw [hrep.size_eq]
    exact (Nat.cast_mul 2 content.size).symm
  len_eq := hrep.len_eq
  take_data := by
    have hle : content.data.length ≤ buf.data.length := by
      rw [hrep.length_data]
      exact content.len_le
    exact (List.take_append_of_le_length hle).trans hrep.take_data

/-- Whatever blocks there are, the loop ends with what the buffer held, and knows whether there is
room. -/
theorem growFrom (heap : Heap) (n : ℕ) {fuel : ℕ} (hfuel : INT32_MAX < content.size * 2 ^ fuel) :
    ∃ buf' content', buf.growFrom heap n fuel =
        .ok (decide (content.data.length + n ≤ content'.size), buf') ∧
      Represents buf' content' ∧ content'.data = content.data ∧
      ((∀ size, heap size = true) → content' = content.makeRoom n) := by
  induction fuel generalizing buf content with
  | zero =>
    have hle := content.size_le
    unfold INT32_MAX at hfuel
    unfold JSON_BUF_LIMIT at hle
    omega
  | succ fuel ih =>
    have hlen := content.len_le
    unfold JsonBuffer.growFrom
    by_cases hshort : content.size - content.data.length < n
    · have hfull : decide (content.data.length + n ≤ content.size) = false :=
        decide_eq_false (by omega)
      rw [if_pos (by rw [hrep.size_eq, hrep.len_eq]; omega)]
      by_cases hlimit : content.size > INT32_MAX / 2
      · rw [if_pos (by rw [hrep.size_eq]; omega)]
        refine ⟨buf, content, by rw [hfull]; rfl, hrep, rfl, fun _ => ?_⟩
        rw [ZoweCommon.JsonBuffer.makeRoom, if_pos hshort, dif_pos hlimit]
      · rw [if_neg (by rw [hrep.size_eq]; omega), hrep.safeRealloc heap, Exec.ok_bind]
        by_cases hgiven : heap (2 * buf.size) = true
        · rw [if_pos hgiven]
          obtain ⟨buf', content', hrun, hrep', hdata, hroom⟩ := ih (hrep.double hlimit) (by
            rw [pow_succ] at hfuel
            unfold ZoweCommon.JsonBuffer.double
            dsimp only
            linarith)
          refine ⟨buf', content', hrun, hrep', hdata, fun hall => ?_⟩
          rw [hroom hall, ZoweCommon.JsonBuffer.makeRoom.eq_1 content, if_pos hshort,
            dif_neg hlimit]
        · rw [if_neg hgiven]
          exact ⟨buf, content, by rw [hfull]; rfl, hrep, rfl, fun hall => absurd (hall _) hgiven⟩
    · rw [if_neg (by rw [hrep.size_eq, hrep.len_eq]; omega)]
      have hroom : decide (content.data.length + n ≤ content.size) = true :=
        decide_eq_true (by omega)
      refine ⟨buf, content, by rw [hroom]; rfl, hrep, rfl, fun _ => ?_⟩
      rw [ZoweCommon.JsonBuffer.makeRoom, if_neg hshort]

theorem grow (heap : Heap) (n : ℕ) :
    ∃ buf' content', buf.grow heap n =
        .ok (decide (content.data.length + n ≤ content'.size), buf') ∧
      Represents buf' content' ∧ content'.data = content.data ∧
      ((∀ size, heap size = true) → content' = content.makeRoom n) := by
  apply hrep.growFrom
  calc INT32_MAX < 1 * 2 ^ 32 := by decide
    _ ≤ content.size * 2 ^ 32 := Nat.mul_le_mul_right _ content.size_pos

end Represents

/-! One call -/

structure Keeps (p : JsonPrinter) (content : ZoweCommon.JsonBuffer) (text : List Byte) : Prop where
  represents : Represents p.customObject content
  data_eq : p.ioErrorFlag = false → content.data = text

theorem keeps_makeCustomJsonPrinter :
    Keeps (makeCustomJsonPrinter makeJsonBuffer) ZoweCommon.makeJsonBuffer [] where
  represents := represents_makeJsonBuffer
  data_eq := fun _ => rfl

namespace Keeps

variable {p : JsonPrinter} {content : ZoweCommon.JsonBuffer} {text : List Byte}
  (hkeeps : Keeps p content text)
include hkeeps

theorem writeToBuffer (heap : Heap) (more : List Byte) :
    ∃ p' content', p.writeToBuffer heap more = .ok p' ∧ Keeps p' content' (text ++ more) := by
  obtain ⟨buf, grown, hgrow, hrep, hdata, -⟩ := hkeeps.represents.grow heap more.length
  unfold JsonPrinter.writeToBuffer
  rw [hgrow, Exec.ok_bind]
  by_cases hroom : content.data.length + more.length ≤ grown.size
  · obtain ⟨data, hstore, hrep'⟩ := hrep.append more (by rw [hdata]; exact hroom)
    rw [decide_eq_true hroom]
    dsimp only
    rw [if_pos rfl, hstore]
    refine ⟨_, _, rfl, hrep', fun hflag => ?_⟩
    exact congrArg (· ++ more) (hdata.trans (hkeeps.data_eq hflag))
  · rw [decide_eq_false hroom]
    exact ⟨_, grown, rfl, hrep, nofun⟩

theorem write (heap : Heap) (more : List Byte) :
    ∃ p' content', p.jsonWriteBufferInternal heap more = .ok p' ∧
      Keeps p' content' (text ++ more) := by
  unfold JsonPrinter.jsonWriteBufferInternal
  by_cases hflag : p.ioErrorFlag = true
  · rw [if_pos hflag]
    exact ⟨p, content, rfl, hkeeps.represents, fun hnot => absurd hflag (by rw [hnot]; decide)⟩
  · rw [if_neg hflag]
    exact hkeeps.writeToBuffer heap more

theorem jsonBufferTerminateString (h : p.customObject.len < p.customObject.size) :
    ∃ p' content', Call.run p .jsonBufferTerminateString = .ok p' ∧
      Keeps p' content' (text ++ [0]) := by
  have hroom : content.data.length + 1 ≤ content.size := by
    rw [hkeeps.represents.len_eq, hkeeps.represents.size_eq] at h
    omega
  obtain ⟨buf, hrun, hrep⟩ := hkeeps.represents.jsonBufferTerminateString hroom
  unfold Call.run
  rw [hrun]
  refine ⟨_, _, rfl, hrep, fun hflag => ?_⟩
  rw [← hkeeps.data_eq hflag]
  rfl

theorem jsonBufferRewind :
    ∃ p' content', Call.run p .jsonBufferRewind = .ok p' ∧ Keeps p' content' [] := by
  obtain ⟨buf, hrun, hrep⟩ := hkeeps.represents.jsonBufferRewind
  unfold Call.run
  rw [hrun]
  exact ⟨_, _, rfl, hrep, fun _ => rfl⟩

end Keeps

/-- The terminator has to be stored in the block. -/
theorem len_lt_of_jsonBufferTerminateString {p p' : JsonPrinter}
    (h : Call.run p .jsonBufferTerminateString = .ok p') :
    p.customObject.len < p.customObject.data.length := by
  unfold Call.run at h
  obtain ⟨buf, hterminated, -⟩ := Exec.bind_eq_ok.mp h
  unfold JsonBuffer.jsonBufferTerminateString at hterminated
  obtain ⟨data, hstore, -⟩ := Exec.bind_eq_ok.mp hterminated
  exact lt_of_store_eq_ok hstore

/-! All the calls -/

/-- The text since the buffer was last rewound, with the terminators. -/
def Call.written (text : List Byte) : Call → List Byte
  | .write _ more => text ++ more
  | .jsonBufferTerminateString => text ++ [0]
  | .jsonBufferRewind => []

def written (calls : List Call) : List Byte := calls.foldl Call.written []

/-- The buffer is within its block, and holds the text if no error has been flagged. -/
structure Sound (p : JsonPrinter) (text : List Byte) : Prop where
  size_eq : p.customObject.size = p.customObject.data.length
  len_nonneg : 0 ≤ p.customObject.len
  len_le : p.customObject.len ≤ p.customObject.size
  take_data : p.ioErrorFlag = false →
    p.customObject.data.take p.customObject.len.toNat = text

theorem Keeps.sound {p : JsonPrinter} {content : ZoweCommon.JsonBuffer} {text : List Byte}
    (h : Keeps p content text) : Sound p text where
  size_eq := by rw [h.represents.size_eq, h.represents.length_data]
  len_nonneg := by
    rw [h.represents.len_eq]
    exact Int.natCast_nonneg _
  len_le := by
    rw [h.represents.len_eq, h.represents.size_eq]
    exact Int.ofNat_le.mpr content.len_le
  take_data := fun hflag => by
    rw [h.represents.len_eq, Int.toNat_natCast, h.represents.take_data, h.data_eq hflag]

/-- After each of the calls no store has been outside of the block, and all is well. -/
def StaysInBounds (calls : List Call) : Prop :=
  ∀ done, done <+: calls → ∃ p, run done = .ok p ∧ Sound p (written done)

/-- Whenever a string is terminated, a byte of the buffer is left. -/
def TerminatesWithRoom (calls : List Call) : Prop :=
  ∀ done p, done ++ [.jsonBufferTerminateString] <+: calls → run done = .ok p →
    p.customObject.len < p.customObject.size

theorem run_append_singleton (done : List Call) (call : Call) :
    run (done ++ [call]) = run done >>= fun p => call.run p := by
  unfold run
  rw [List.foldlM_append]
  congr 1
  funext p
  rw [List.foldlM_cons]
  exact bind_pure _

theorem written_append_singleton (done : List Call) (call : Call) :
    written (done ++ [call]) = call.written (written done) := by
  unfold written
  rw [List.foldl_append]
  rfl

/-- By induction on the calls that have been made. -/
theorem TerminatesWithRoom.keeps {calls : List Call} (h : TerminatesWithRoom calls)
    {done : List Call} (hdone : done <+: calls) :
    ∃ p content, run done = .ok p ∧ Keeps p content (written done) := by
  induction done using List.reverseRecOn with
  | nil => exact ⟨_, _, rfl, keeps_makeCustomJsonPrinter⟩
  | append_singleton done call ih =>
    obtain ⟨p, content, hrun, hkeeps⟩ := ih ((List.prefix_append _ _).trans hdone)
    rw [run_append_singleton, hrun, written_append_singleton, Exec.ok_bind]
    cases call with
    | write heap text => exact hkeeps.write heap text
    | jsonBufferTerminateString => exact hkeeps.jsonBufferTerminateString (h done p hdone hrun)
    | jsonBufferRewind => exact hkeeps.jsonBufferRewind

theorem TerminatesWithRoom.staysInBounds {calls : List Call} (h : TerminatesWithRoom calls) :
    StaysInBounds calls := by
  intro done hdone
  obtain ⟨p, content, hrun, hkeeps⟩ := h.keeps hdone
  exact ⟨p, hrun, hkeeps.sound⟩

theorem StaysInBounds.terminatesWithRoom {calls : List Call} (h : StaysInBounds calls) :
    TerminatesWithRoom calls := by
  intro done p hdone hrun
  obtain ⟨q, hq, hsound⟩ := h done ((List.prefix_append _ _).trans hdone)
  obtain ⟨p', hterminated, -⟩ := h _ hdone
  cases hrun.symm.trans hq
  rw [run_append_singleton, hrun, Exec.ok_bind] at hterminated
  rw [hsound.size_eq]
  exact len_lt_of_jsonBufferTerminateString hterminated

/-! A text that is terminated once it has been written -/

/-- The block is as large as it was at first, or half of it would not be enough. -/
def Tight (content : ZoweCommon.JsonBuffer) (len : ℕ) : Prop :=
  content.size = JSON_BUF_DEFAULT_SIZE ∨ content.size < 2 * len

theorem Tight.makeRoom {content : ZoweCommon.JsonBuffer} {n : ℕ}
    (h : Tight content (content.data.length + n)) :
    Tight (content.makeRoom n) (content.data.length + n) := by
  induction content using ZoweCommon.JsonBuffer.makeRoom.induct n with
  | case1 content hshort hlimit =>
    rw [ZoweCommon.JsonBuffer.makeRoom, if_pos hshort, dif_pos hlimit]
    exact h
  | case2 content hshort hlimit ih =>
    rw [ZoweCommon.JsonBuffer.makeRoom, if_pos hshort, dif_neg hlimit]
    have hlen := content.len_le
    refine ih (Or.inr ?_)
    dsimp only [ZoweCommon.JsonBuffer.double]
    omega
  | case3 content hroom =>
    rw [ZoweCommon.JsonBuffer.makeRoom, if_neg hroom]
    exact h

theorem Tight.full_iff {content : ZoweCommon.JsonBuffer} (h : Tight content content.data.length) :
    content.data.length = content.size ↔
      ∃ k ≤ 20, content.data.length = JSON_BUF_DEFAULT_SIZE * 2 ^ k := by
  obtain ⟨j, hj, hsize⟩ := content.size_eq
  have hlen := content.len_le
  constructor
  · intro hfull
    exact ⟨j, hj, hfull.trans hsize⟩
  · rintro ⟨k, hk, hdata⟩
    by_contra hnot
    have hlt : JSON_BUF_DEFAULT_SIZE * 2 ^ k < JSON_BUF_DEFAULT_SIZE * 2 ^ j := by
      rw [← hdata, ← hsize]
      omega
    have hkj : k < j := (Nat.pow_lt_pow_iff_right (by decide)).mp (Nat.lt_of_mul_lt_mul_left hlt)
    have hdouble : 2 * content.data.length ≤ content.size := by
      rw [hdata, hsize]
      calc 2 * (JSON_BUF_DEFAULT_SIZE * 2 ^ k) = JSON_BUF_DEFAULT_SIZE * 2 ^ (k + 1) := by ring
        _ ≤ JSON_BUF_DEFAULT_SIZE * 2 ^ j :=
          Nat.mul_le_mul_left _ (Nat.pow_le_pow_right (by decide) hkj)
    rcases h with hdefault | hshort
    · have hpos := Nat.two_pow_pos k
      unfold JSON_BUF_DEFAULT_SIZE at *
      omega
    · omega

/-- The printer in memory, and the one whose buffer is what it holds. -/
structure Refines (p : JsonPrinter) (q : ZoweCommon.JsonPrinter) : Prop where
  represents : Represents p.customObject q.customObject
  ioErrorFlag_eq : p.ioErrorFlag = q.ioErrorFlag

theorem refines_makeCustomJsonPrinter (mode : JsonCharsetConversion) :
    Refines (makeCustomJsonPrinter makeJsonBuffer)
      (ZoweCommon.makeCustomJsonPrinter mode ZoweCommon.makeJsonBuffer) where
  represents := represents_makeJsonBuffer
  ioErrorFlag_eq := rfl

/-- All the text is in a buffer that is no larger than it has to be. -/
structure Full (q : ZoweCommon.JsonPrinter) (text : List Byte) : Prop where
  ioErrorFlag : q.ioErrorFlag = false
  data : q.customObject.data = text
  tight : Tight q.customObject text.length

theorem Full.jsonWriteBufferInternal {q : ZoweCommon.JsonPrinter} {text more : List Byte}
    (h : Full q text) (hfits : (text ++ more).length ≤ JSON_BUF_LIMIT) :
    Full (q.jsonWriteBufferInternal more) (text ++ more) := by
  have hroom : q.customObject.data.length + more.length ≤
      (q.customObject.makeRoom more.length).size := by
    apply ZoweCommon.JsonBuffer.le_size_makeRoom
    rwa [h.data, ← List.length_append]
  have htight : Tight q.customObject (q.customObject.data.length + more.length) := by
    rw [h.data]
    rcases h.tight with hdefault | hshort
    · exact .inl hdefault
    · exact .inr (by omega)
  have hmade := htight.makeRoom
  rw [h.data, ← List.length_append] at hmade
  unfold ZoweCommon.JsonPrinter.jsonWriteBufferInternal ZoweCommon.JsonPrinter.writeToBuffer
  rw [if_neg (by rw [h.ioErrorFlag]; decide), dif_pos (by
    rwa [ZoweCommon.JsonBuffer.makeRoom_data])]
  refine ⟨h.ioErrorFlag, ?_, hmade⟩
  dsimp only [ZoweCommon.JsonBuffer.append]
  rw [ZoweCommon.JsonBuffer.makeRoom_data, h.data]

section granted

variable {heap : Heap} (hall : ∀ size, heap size = true)
include hall

theorem Refines.writeToBuffer {p : JsonPrinter} {q : ZoweCommon.JsonPrinter} (h : Refines p q)
    (text : List Byte) :
    ∃ p', p.writeToBuffer heap text = .ok p' ∧ Refines p' (q.writeToBuffer text) := by
  obtain ⟨buf, grown, hgrow, hrep, hdata, hmade⟩ := h.represents.grow heap text.length
  obtain rfl := hmade hall
  unfold JsonPrinter.writeToBuffer ZoweCommon.JsonPrinter.writeToBuffer
  rw [hgrow, Exec.ok_bind, ← hdata]
  dsimp only
  by_cases hroom : (q.customObject.makeRoom text.length).data.length + text.length ≤
      (q.customObject.makeRoom text.length).size
  · obtain ⟨data, hstore, hrep'⟩ := hrep.append text hroom
    rw [decide_eq_true hroom, if_pos rfl, dif_pos hroom, hstore]
    exact ⟨_, rfl, hrep', h.ioErrorFlag_eq⟩
  · rw [decide_eq_false hroom, dif_neg hroom]
    exact ⟨_, rfl, hrep, rfl⟩

theorem Refines.jsonWriteBufferInternal {p : JsonPrinter} {q : ZoweCommon.JsonPrinter}
    (h : Refines p q) (text : List Byte) :
    ∃ p', p.jsonWriteBufferInternal heap text = .ok p' ∧
      Refines p' (q.jsonWriteBufferInternal text) := by
  unfold JsonPrinter.jsonWriteBufferInternal ZoweCommon.JsonPrinter.jsonWriteBufferInternal
  rw [h.ioErrorFlag_eq]
  split
  · exact ⟨p, rfl, h⟩
  · exact h.writeToBuffer hall text

/-- By induction on the texts that have been written, of which the buffer has all. -/
theorem exists_run_writes (texts : List (List Byte))
    (hfits : texts.flatten.length ≤ JSON_BUF_LIMIT) :
    ∃ p q, run (texts.map (.write heap)) = .ok p ∧ Refines p q ∧ Full q texts.flatten := by
  induction texts using List.reverseRecOn with
  | nil =>
    have hrefines := refines_makeCustomJsonPrinter .JSON_MODE_CONVERT_TO_UTF8
    exact ⟨_, _, rfl, hrefines, rfl, rfl, .inl rfl⟩
  | append_singleton texts text ih =>
    rw [List.flatten_append, List.flatten_singleton] at hfits ⊢
    obtain ⟨p, q, hrun, hrefines, hfull⟩ := ih (JsonPrinter.fits_left hfits)
    obtain ⟨p', hwrite, hrefines'⟩ := hrefines.jsonWriteBufferInternal hall text
    refine ⟨p', _, ?_, hrefines', hfull.jsonWriteBufferInternal hfits⟩
    rw [List.map_append, List.map_singleton, run_append_singleton, hrun]
    exact hwrite

/-- As a template is put together: its parts are written, then the whole is terminated. -/
theorem staysInBounds_terminated_iff {texts : List (List Byte)}
    (hfits : texts.flatten.length ≤ JSON_BUF_LIMIT) :
    StaysInBounds (texts.map (.write heap) ++ [.jsonBufferTerminateString]) ↔
      ∀ k ≤ 20, texts.flatten.length ≠ JSON_BUF_DEFAULT_SIZE * 2 ^ k := by
  obtain ⟨p, q, hrun, hrefines, hfull⟩ := exists_run_writes hall texts hfits
  have hroom : p.customObject.len < p.customObject.size ↔
      ∀ k ≤ 20, texts.flatten.length ≠ JSON_BUF_DEFAULT_SIZE * 2 ^ k := by
    have hlen := q.customObject.len_le
    have htight := hfull.tight
    rw [hrefines.represents.len_eq, hrefines.represents.size_eq]
    rw [← hfull.data] at htight ⊢
    constructor
    · intro hlt k hk heq
      have heq' := htight.full_iff.mpr ⟨k, hk, heq⟩
      omega
    · intro hnot
      have hne : q.customObject.data.length ≠ q.customObject.size := by
        intro heq
        obtain ⟨k, hk, heq'⟩ := htight.full_iff.mp heq
        exact hnot k hk heq'
      omega
  rw [← hroom]
  constructor
  · intro h
    exact h.terminatesWithRoom _ p (List.prefix_refl _) hrun
  · intro hlt
    apply TerminatesWithRoom.staysInBounds
    intro done q hdone hrun'
    rcases List.prefix_concat_iff.mp hdone with heq | hearlier
    · rw [(List.append_inj' heq rfl).1, hrun] at hrun'
      cases hrun'
      exact hlt
    · have hmem := hearlier.subset (List.mem_append_right _ (List.mem_singleton_self _))
      obtain ⟨text, -, hwrite⟩ := List.mem_map.mp hmem
      cases hwrite

end granted

/-- Only a terminator can be stored outside of the block, and it is when the buffer is full. -/
theorem staysInBounds_iff (calls : List Call) : StaysInBounds calls ↔ TerminatesWithRoom calls :=
  ⟨StaysInBounds.terminatesWithRoom, TerminatesWithRoom.staysInBounds⟩

/-- A text as long as the block that there is at first: its terminator comes behind the block. -/
theorem not_staysInBounds_terminated :
    ¬ StaysInBounds
      [.write (fun _ => true) (List.replicate 1024 0x61), .jsonBufferTerminateString] := by
  intro h
  have hlength : [List.replicate 1024 (0x61 : Byte)].flatten.length = 1024 := by
    rw [List.flatten_singleton, List.length_replicate]
  have hiff := @staysInBounds_terminated_iff (fun _ => true) (fun _ => rfl)
    [List.replicate 1024 0x61] (by rw [hlength]; decide)
  exact hiff.mp h 0 (Nat.zero_le _) hlength

end BufferMemory
end ZoweCommon
