import ZoweCommon.Basic.CLibrary
import ZoweCommon.Basic.Ebcdic
import ZoweCommon.Basic.Exec

/-! The messages that programs in other address spaces give to a cross-memory server to be printed:
how they are queued and how they are printed. -/
namespace ZoweCommon
namespace ServiceMessages

def RC_CMS_OK : ℤ := 0
def RC_CMS_STDSVC_PARM_NULL : ℤ := 78
def RC_CMS_STDSVC_PARM_BAD_EYECATCHER : ℤ := 79
def RC_CMS_NO_STORAGE_FOR_MSG : ℤ := 86

def LOG_MSG_PREFIX_SIZE : ℕ := 57
def MESSAGE_ID_SHIFT : ℕ := 10

def CMS_LOG_DUMP_MSG_ID : List Byte := Ebcdic.literal "ZWES0101I"
def CMS_LOG_SERVICE_PARM_EYECATCHER : List Byte := Ebcdic.literal "RSCMSMBL"
def CMS_DUMP_SERVICE_PARM_EYECATCHER : List Byte := Ebcdic.literal "ZWESXDSV"

def BLANK : Byte := Ebcdic.toIbm1047 0x20
def NEWLINE : Byte := 0x15

structure LogServiceParm where
  eyecatcher : List Byte
  message : List Byte
  messageLength : BitVec 32
  eyecatcher_length : eyecatcher.length = 8
  message_length : message.length = 512

structure DumpServiceParm where
  eyecatcher : List Byte
  version : Byte
  messagePrefix : List Byte
  descriptionNullTerm : List Byte
  originalAddress : BitVec 64
  originalSize : BitVec 32
  dataLength : BitVec 16
  data : List Byte
  eyecatcher_length : eyecatcher.length = 8
  messagePrefix_length : messagePrefix.length = LOG_MSG_PREFIX_SIZE
  description_length : descriptionNullTerm.length = 32
  data_length : data.length = 512

/-- What is in an element of the queue, as its type says. -/
inductive ServiceParm
  | log (parm : LogServiceParm)
  | dump (parm : DumpServiceParm)

inductive CellPool
  | messageQueueMainPool
  | messageQueueFallbackPool
  deriving DecidableEq

structure MsgQueueElement where
  cellPool : CellPool
  parm : ServiceParm

structure Server where
  messageQueue : List MsgQueueElement

/-- The element and the return code. The cell is what the pools have, if anything. -/
def allocateMsgQueueElement (cell : Option CellPool) (parm : ServiceParm) :
    ℤ × Option MsgQueueElement :=
  match cell with
  | some cellPool => (RC_CMS_OK, some ⟨cellPool, parm⟩)
  | none => (RC_CMS_NO_STORAGE_FOR_MSG, none)

/-- What both services do with a copy of the caller's block. -/
def handleMessage (server : Server) (cell : Option CellPool) (parm : ServiceParm)
    (eyecatcher expected : List Byte) : ℤ × Server :=
  if eyecatcher ≠ expected then (RC_CMS_STDSVC_PARM_BAD_EYECATCHER, server)
  else
    match allocateMsgQueueElement cell parm with
    | (_, some newElement) => (RC_CMS_OK, { server with messageQueue := server.messageQueue ++ [newElement] })
    | (allocRC, none) => (allocRC, server)

def handleLogService (server : Server) (cell : Option CellPool)
    (callerParm : Option LogServiceParm) : ℤ × Server :=
  match callerParm with
  | none => (RC_CMS_STDSVC_PARM_NULL, server)
  | some localParm =>
    handleMessage server cell (.log localParm) localParm.eyecatcher CMS_LOG_SERVICE_PARM_EYECATCHER

def handleDumpService (server : Server) (cell : Option CellPool)
    (callerParm : Option DumpServiceParm) : ℤ × Server :=
  match callerParm with
  | none => (RC_CMS_STDSVC_PARM_NULL, server)
  | some localParm =>
    handleMessage server cell (.dump localParm) localParm.eyecatcher CMS_DUMP_SERVICE_PARM_EYECATCHER

/-- What `%s` prints of a field, or so many characters of it at most. What is behind the field is
not to be read. -/
def readText : Option ℕ → List Byte → Exec (List Byte)
  | some 0, _ => return []
  | _, [] => throw .undefinedBehaviour
  | precision, c :: field =>
    if c = 0 then return []
    else do
      let text ← readText (precision.map (· - 1)) field
      return c :: text

/-- The comparison is one of unsigned numbers. -/
def messagePrecision (messageLength : BitVec 32) : ℕ :=
  min (messageLength.signExtend 64).toNat 512

/-- A block with another eyecatcher is only mentioned in the log. -/
def printLogServiceMsg (msgParm : LogServiceParm) : Exec (List Byte) :=
  if msgParm.eyecatcher ≠ CMS_LOG_SERVICE_PARM_EYECATCHER then return []
  else readText (some (messagePrecision msgParm.messageLength)) msgParm.message

def printableEBCDIC : List Byte :=
  [
    0x4B, 0x4B, 0x4B, 0x4B, 0x4B, 0x4B, 0x4B, 0x4B, 0x4B, 0x4B, 0x4B, 0x4B, 0x4B, 0x4B, 0x4B, 0x4B,
    0x4B, 0x4B, 0x4B, 0x4B, 0x4B, 0x4B, 0x4B, 0x4B, 0x4B, 0x4B, 0x4B, 0x4B, 0x4B, 0x4B, 0x4B, 0x4B,
    0x4B, 0x4B, 0x4B, 0x4B, 0x4B, 0x4B, 0x4B, 0x4B, 0x4B, 0x4B, 0x4B, 0x4B, 0x4B, 0x4B, 0x4B, 0x4B,
    0x4B, 0x4B, 0x4B, 0x4B, 0x4B, 0x4B, 0x4B, 0x4B, 0x4B, 0x4B, 0x4B, 0x4B, 0x4B, 0x4B, 0x4B, 0x4B,
    0x40, 0x4B, 0x4B, 0x4B, 0x4B, 0x4B, 0x4B, 0x4B, 0x4B, 0x4B, 0x4B, 0x4B, 0x4C, 0x4D, 0x4E, 0x4F,
    0x50, 0x4B, 0x4B, 0x4B, 0x4B, 0x4B, 0x4B, 0x4B, 0x4B, 0x4B, 0x5A, 0x5B, 0x5C, 0x5D, 0x5E, 0x5F,
    0x60, 0x61, 0x4B, 0x4B, 0x4B, 0x4B, 0x4B, 0x4B, 0x4B, 0x4B, 0x4B, 0x6B, 0x6C, 0x6D, 0x6E, 0x6F,
    0x4B, 0x4B, 0x4B, 0x4B, 0x4B, 0x4B, 0x4B, 0x4B, 0x4B, 0x79, 0x7A, 0x7B, 0x4B, 0x7D, 0x7E, 0x7F,
    0x4B, 0x81, 0x82, 0x83, 0x84, 0x85, 0x86, 0x87, 0x88, 0x89, 0x4B, 0x4B, 0x4B, 0x4B, 0x4B, 0x4B,
    0x4B, 0x91, 0x92, 0x93, 0x94, 0x95, 0x96, 0x97, 0x98, 0x99, 0x4B, 0x4B, 0x4B, 0x4B, 0x4B, 0x4B,
    0x4B, 0xA1, 0xA2, 0xA3, 0xA4, 0xA5, 0xA6, 0xA7, 0xA8, 0xA9, 0x4B, 0x4B, 0x4B, 0xAD, 0x4B, 0x4B,
    0x4B, 0x4B, 0x4B, 0x4B, 0x4B, 0x4B, 0x4B, 0x4B, 0x4B, 0x4B, 0x4B, 0x4B, 0x4B, 0xBD, 0x4B, 0x4B,
    0xC0, 0xC1, 0xC2, 0xC3, 0xC4, 0xC5, 0xC6, 0xC7, 0xC8, 0xC9, 0x4B, 0x4B, 0x4B, 0x4B, 0x4B, 0x4B,
    0xD0, 0xD1, 0xD2, 0xD3, 0xD4, 0xD5, 0xD6, 0xD7, 0xD8, 0xD9, 0x4B, 0x4B, 0x4B, 0x4B, 0x4B, 0x4B,
    0xE0, 0x4B, 0xE2, 0xE3, 0xE4, 0xE5, 0xE6, 0xE7, 0xE8, 0xE9, 0x4B, 0x4B, 0x4B, 0x4B, 0x4B, 0x4B,
    0xF0, 0xF1, 0xF2, 0xF3, 0xF4, 0xF5, 0xF6, 0xF7, 0xF8, 0xF9, 0x4B, 0x4B, 0x4B, 0x4B, 0x4B, 0x4B
  ]

def hexDigit (n : ℕ) : Byte := Ebcdic.toIbm1047 (BitVec.ofNat 8 (if n < 10 then 0x30 + n else 0x37 + n))

def hexFill (formatWidth value : ℕ) : List Byte :=
  (List.range formatWidth).map fun i => hexDigit (value / 16 ^ (formatWidth - i - 1) % 16)

def dataAt (data : List Byte) (i : ℕ) : Exec Byte :=
  match data[i]? with
  | some c => return c
  | none => throw .undefinedBehaviour

def hexColumn (data : List Byte) (dataSize i : ℕ) : Exec (List Byte) := do
  let separator := if i % 4 = 0 ∧ i % 16 ≠ 0 then [BLANK] else []
  if i < dataSize then
    let c ← dataAt data i
    return separator ++ hexFill 2 c.toNat
  else return separator ++ [BLANK, BLANK]

def textColumn (data : List Byte) (dataSize i : ℕ) : Exec (List Byte) :=
  if i < dataSize then do
    let c ← dataAt data i
    return [printableEBCDIC.getD c.toNat 0]
  else return []

/-- The line with sixteen of the bytes, unless there are no more. -/
def dumpWithEmptyMessageID (data : List Byte) (dataSize lineNumber : ℕ) :
    Exec (Option (List Byte)) :=
  let index := lineNumber * 16
  if index < dataSize then do
    let columns ← (List.range 16).mapM fun pos => hexColumn data dataSize (index + pos)
    let text ← (List.range 16).mapM fun pos => textColumn data dataSize (index + pos)
    return some (CMS_LOG_DUMP_MSG_ID ++
      List.replicate (MESSAGE_ID_SHIFT - CMS_LOG_DUMP_MSG_ID.length) BLANK ++ hexFill 8 index ++
      [BLANK, BLANK] ++ columns.flatten ++ Ebcdic.literal " |" ++ text.flatten ++ Ebcdic.literal "|")
  else return none

theorem dumpWithEmptyMessageID_some {data line : List Byte} {dataSize lineNumber : ℕ}
    (h : dumpWithEmptyMessageID data dataSize lineNumber = .ok (some line)) :
    lineNumber * 16 < dataSize := by
  unfold dumpWithEmptyMessageID at h
  dsimp only at h
  split_ifs at h with hlt
  · exact hlt
  · cases h

def dumpLines (data : List Byte) (dataSize lineNumber : ℕ) : Exec (List Byte) :=
  match _h : dumpWithEmptyMessageID data dataSize lineNumber with
  | .error fault => .error fault
  | .ok none => return []
  | .ok (some line) => do
    let lines ← dumpLines data dataSize (lineNumber + 1)
    return List.replicate LOG_MSG_PREFIX_SIZE BLANK ++ line ++ NEWLINE :: lines
termination_by dataSize - lineNumber * 16
decreasing_by
  have hlt := dumpWithEmptyMessageID_some _h
  omega

def decimal (n : ℕ) : List Byte := (CLibrary.formatD n).map Ebcdic.toIbm1047

/-- What is said of the bytes that are not in the block. -/
def truncation (originalSize dataLength : ℕ) : List Byte :=
  if dataLength < originalSize then
    List.replicate LOG_MSG_PREFIX_SIZE BLANK ++ CMS_LOG_DUMP_MSG_ID ++
      (List.replicate 32 (Ebcdic.literal " .")).flatten ++ Ebcdic.literal " " ++ NEWLINE ::
      (List.replicate LOG_MSG_PREFIX_SIZE BLANK ++ CMS_LOG_DUMP_MSG_ID ++ Ebcdic.literal " " ++
        decimal (originalSize - dataLength) ++ Ebcdic.literal " bytes have been truncated" ++
        [NEWLINE])
  else []

/-- How an address looks is for the C library to say. -/
def printDumpServiceMsg (pointerText : BitVec 64 → List Byte) (dumpParm : DumpServiceParm) :
    Exec (List Byte) := do
  if dumpParm.eyecatcher ≠ CMS_DUMP_SERVICE_PARM_EYECATCHER then return []
  let messagePrefix ← readText (some LOG_MSG_PREFIX_SIZE) dumpParm.messagePrefix
  let description ← readText none dumpParm.descriptionNullTerm
  let lines ← dumpLines dumpParm.data dumpParm.dataLength.toNat 0
  return messagePrefix ++ CMS_LOG_DUMP_MSG_ID ++ Ebcdic.literal " Dump of '" ++ description ++
    Ebcdic.literal "' (" ++ decimal dumpParm.originalSize.toNat ++ Ebcdic.literal " bytes at 0x" ++
    pointerText dumpParm.originalAddress ++ Ebcdic.literal "):" ++ NEWLINE :: lines ++
    truncation dumpParm.originalSize.toNat dumpParm.dataLength.toNat

/-- An element is printed as its type says. -/
def printElement (pointerText : BitVec 64 → List Byte) (element : MsgQueueElement) :
    Exec (List Byte) :=
  match element.parm with
  | .log parm => printLogServiceMsg parm
  | .dump parm => printDumpServiceMsg pointerText parm

section Contained

variable {field data : List Byte} {dataSize : ℕ}

theorem readText_precision : ∀ {precision : ℕ} {field : List Byte}, precision ≤ field.length →
    ∃ text, readText (some precision) field = .ok text := by
  intro precision field
  induction field generalizing precision with
  | nil =>
    intro h
    rw [List.length_nil, Nat.le_zero] at h
    subst h
    exact ⟨[], rfl⟩
  | cons c field ih =>
    intro h
    cases precision with
    | zero => exact ⟨[], rfl⟩
    | succ precision =>
      rw [readText]
      · split_ifs
        · exact ⟨[], rfl⟩
        · obtain ⟨text, htext⟩ := ih (Nat.le_of_succ_le_succ h)
          rw [Option.map_some, Nat.add_sub_cancel, htext]
          exact ⟨c :: text, rfl⟩
      · intro hzero
        cases hzero

theorem readText_terminated : (∃ text, readText none field = .ok text) ↔ 0 ∈ field := by
  induction field with
  | nil =>
    constructor
    · intro ⟨text, h⟩
      cases h
    · intro h
      cases h
  | cons c field ih =>
    rw [readText, List.mem_cons, ← ih, Option.map_none]
    · by_cases hc : c = 0
      · rw [if_pos hc]
        exact ⟨fun _ => .inl hc.symm, fun _ => ⟨[], rfl⟩⟩
      · rw [if_neg hc]
        constructor
        · intro ⟨text, h⟩
          rw [Exec.bind_eq_ok] at h
          obtain ⟨rest, hrest, -⟩ := h
          exact .inr ⟨rest, hrest⟩
        · intro h
          obtain hzero | ⟨rest, hrest⟩ := h
          · exact absurd hzero.symm hc
          · rw [hrest]
            exact ⟨c :: rest, rfl⟩
    · intro h
      cases h

theorem mapM_ok {α β : Type} {f : α → Exec β} (xs : List α) (h : ∀ x ∈ xs, ∃ y, f x = .ok y) :
    ∃ ys, xs.mapM f = .ok ys := by
  induction xs with
  | nil => exact ⟨[], rfl⟩
  | cons x xs ih =>
    obtain ⟨y, hy⟩ := h x List.mem_cons_self
    obtain ⟨ys, hys⟩ := ih fun x hx => h x (List.mem_cons_of_mem _ hx)
    rw [List.mapM_cons, hy, Exec.ok_bind, hys]
    exact ⟨y :: ys, rfl⟩

theorem dataAt_ok {i : ℕ} (hi : i < data.length) : dataAt data i = .ok (data[i]) := by
  unfold dataAt
  rw [List.getElem?_eq_getElem hi]
  rfl

theorem hexColumn_ok (hsize : dataSize ≤ data.length) (i : ℕ) :
    ∃ column, hexColumn data dataSize i = .ok column := by
  unfold hexColumn
  by_cases hi : i < dataSize
  · rw [if_pos hi, dataAt_ok (hi.trans_le hsize)]
    exact ⟨_, rfl⟩
  · rw [if_neg hi]
    exact ⟨_, rfl⟩

theorem textColumn_ok (hsize : dataSize ≤ data.length) (i : ℕ) :
    ∃ column, textColumn data dataSize i = .ok column := by
  unfold textColumn
  by_cases hi : i < dataSize
  · rw [if_pos hi, dataAt_ok (hi.trans_le hsize)]
    exact ⟨_, rfl⟩
  · rw [if_neg hi]
    exact ⟨_, rfl⟩

theorem dumpWithEmptyMessageID_ok (hsize : dataSize ≤ data.length) (lineNumber : ℕ) :
    ∃ line, dumpWithEmptyMessageID data dataSize lineNumber = .ok line := by
  unfold dumpWithEmptyMessageID
  dsimp only
  split_ifs with hlt
  · obtain ⟨columns, hcolumns⟩ := mapM_ok (List.range 16)
      fun pos _ => hexColumn_ok hsize (lineNumber * 16 + pos)
    obtain ⟨text, htext⟩ := mapM_ok (List.range 16)
      fun pos _ => textColumn_ok hsize (lineNumber * 16 + pos)
    rw [hcolumns, Exec.ok_bind, htext]
    exact ⟨_, rfl⟩
  · exact ⟨none, rfl⟩

theorem dumpLines_ok (hsize : dataSize ≤ data.length) (lineNumber : ℕ) :
    ∃ lines, dumpLines data dataSize lineNumber = .ok lines := by
  induction hleft : dataSize - lineNumber * 16 using Nat.strong_induction_on
    generalizing lineNumber with
  | _ n ih =>
    obtain ⟨line, hline⟩ := dumpWithEmptyMessageID_ok hsize lineNumber
    rw [dumpLines]
    split
    next fault hfault =>
      rw [hline] at hfault
      cases hfault
    next => exact ⟨[], rfl⟩
    next line' hline' =>
      have hlt := dumpWithEmptyMessageID_some hline'
      have hsmaller : dataSize - (lineNumber + 1) * 16 < n := by omega
      obtain ⟨lines, hlines⟩ := ih _ hsmaller (lineNumber + 1) rfl
      rw [hlines]
      exact ⟨_, rfl⟩

theorem dumpWithEmptyMessageID_behind {lineNumber : ℕ} (hindex : lineNumber * 16 = data.length)
    (hsize : data.length < dataSize) {line : Option (List Byte)} :
    dumpWithEmptyMessageID data dataSize lineNumber ≠ .ok line := by
  intro h
  unfold dumpWithEmptyMessageID at h
  dsimp only at h
  rw [if_pos (hindex ▸ hsize), Exec.bind_eq_ok] at h
  obtain ⟨columns, hcolumns, -⟩ := h
  have hrange : List.range 16 = 0 :: (List.range 15).map Nat.succ := List.range_succ_eq_map
  rw [hrange, List.mapM_cons, Exec.bind_eq_ok] at hcolumns
  obtain ⟨column, hcolumn, -⟩ := hcolumns
  unfold hexColumn at hcolumn
  rw [Nat.add_zero, hindex, if_pos hsize, Exec.bind_eq_ok] at hcolumn
  obtain ⟨c, hc, -⟩ := hcolumn
  unfold dataAt at hc
  rw [List.getElem?_eq_none le_rfl] at hc
  cases hc

/-- More bytes than there are cannot be dumped. -/
theorem dumpLines_behind {lastLine lineNumber : ℕ} (hlength : data.length = lastLine * 16)
    (hsize : data.length < dataSize) (hline : lineNumber ≤ lastLine) (lines : List Byte) :
    dumpLines data dataSize lineNumber ≠ .ok lines := by
  intro h
  induction hleft : lastLine - lineNumber generalizing lineNumber lines with
  | zero =>
    have hlast : lineNumber = lastLine := by omega
    rw [dumpLines] at h
    split at h
    next => cases h
    next hnone => exact dumpWithEmptyMessageID_behind (by omega) hsize hnone
    next hsome => exact dumpWithEmptyMessageID_behind (by omega) hsize hsome
  | succ left ih =>
    rw [dumpLines] at h
    split at h
    next => cases h
    next hnone =>
      unfold dumpWithEmptyMessageID at hnone
      dsimp only at hnone
      rw [if_pos (by omega), Exec.bind_eq_ok] at hnone
      obtain ⟨columns, -, hnone⟩ := hnone
      rw [Exec.bind_eq_ok] at hnone
      obtain ⟨text, -, hnone⟩ := hnone
      cases hnone
    next hsome =>
      rw [Exec.bind_eq_ok] at h
      obtain ⟨rest, hrest, -⟩ := h
      exact ih (by omega) rest hrest (by omega)

variable {pointerText : BitVec 64 → List Byte}

/-- A message is within its block, whatever its length is said to be. -/
theorem printLogServiceMsg_ok (parm : LogServiceParm) :
    ∃ text, printLogServiceMsg parm = .ok text := by
  unfold printLogServiceMsg
  split_ifs
  · exact ⟨[], rfl⟩
  · apply readText_precision
    rw [parm.message_length]
    exact min_le_right _ _

theorem printDumpServiceMsg_ok_iff {parm : DumpServiceParm}
    (heyecatcher : parm.eyecatcher = CMS_DUMP_SERVICE_PARM_EYECATCHER) :
    (∃ text, printDumpServiceMsg pointerText parm = .ok text) ↔
      0 ∈ parm.descriptionNullTerm ∧ parm.dataLength.toNat ≤ 512 := by
  obtain ⟨before, hbefore⟩ := readText_precision (Nat.le_of_eq parm.messagePrefix_length.symm)
  unfold printDumpServiceMsg
  rw [if_neg (not_not_intro heyecatcher), hbefore, Exec.ok_bind]
  constructor
  · intro ⟨text, h⟩
    rw [Exec.bind_eq_ok] at h
    obtain ⟨description, hdescription, h⟩ := h
    rw [Exec.bind_eq_ok] at h
    obtain ⟨lines, hlines, -⟩ := h
    refine ⟨readText_terminated.mp ⟨description, hdescription⟩, ?_⟩
    by_contra hlong
    have hlength : parm.data.length = 32 * 16 := parm.data_length
    exact dumpLines_behind hlength (by omega) (Nat.zero_le 32) lines hlines
  · intro ⟨hterminated, hfits⟩
    obtain ⟨description, hdescription⟩ := readText_terminated.mpr hterminated
    obtain ⟨lines, hlines⟩ := dumpLines_ok (parm.data_length ▸ hfits) 0
    rw [hdescription, Exec.ok_bind, hlines]
    exact ⟨_, rfl⟩

def ServiceParm.HasEyecatcher : ServiceParm → Prop
  | .log parm => parm.eyecatcher = CMS_LOG_SERVICE_PARM_EYECATCHER
  | .dump parm => parm.eyecatcher = CMS_DUMP_SERVICE_PARM_EYECATCHER

/-- The service that a block is for. -/
def handleService (server : Server) (cell : Option CellPool) : ServiceParm → ℤ × Server
  | .log parm => handleLogService server cell (some parm)
  | .dump parm => handleDumpService server cell (some parm)

theorem handleMessage_queued {server : Server} {cell : CellPool} {parm : ServiceParm}
    {eyecatcher expected : List Byte} (h : eyecatcher = expected) :
    handleMessage server (some cell) parm eyecatcher expected =
      (RC_CMS_OK, ⟨server.messageQueue ++ [⟨cell, parm⟩]⟩) := by
  unfold handleMessage
  rw [if_neg (not_not_intro h)]
  rfl

/-- A block that was queued is printed from its own fields only: a message always, a dump when its
description has an end and its data is not said to be longer than it can be. -/
theorem queued_contained_iff (server : Server) (cell : CellPool) {parm : ServiceParm}
    (heyecatcher : parm.HasEyecatcher) :
    ∃ element, handleService server (some cell) parm =
        (RC_CMS_OK, ⟨server.messageQueue ++ [element]⟩) ∧
      ((∃ text, printElement pointerText element = .ok text) ↔
        ∀ dumpParm, parm = .dump dumpParm →
          0 ∈ dumpParm.descriptionNullTerm ∧ dumpParm.dataLength.toNat ≤ 512) := by
  refine ⟨⟨cell, parm⟩, ?_, ?_⟩
  · cases parm with
    | log parm => exact handleMessage_queued heyecatcher
    | dump parm => exact handleMessage_queued heyecatcher
  · cases parm with
    | log parm =>
      refine ⟨fun _ dumpParm h => ?_, fun _ => printLogServiceMsg_ok parm⟩
      cases h
    | dump parm =>
      apply (printDumpServiceMsg_ok_iff heyecatcher).trans
      simp only [ServiceParm.dump.injEq, forall_eq']

def emptyDump (descriptionNullTerm : List Byte) (h : descriptionNullTerm.length = 32) :
    DumpServiceParm where
  eyecatcher := CMS_DUMP_SERVICE_PARM_EYECATCHER
  version := 1
  messagePrefix := List.replicate LOG_MSG_PREFIX_SIZE BLANK
  descriptionNullTerm
  originalAddress := 0
  originalSize := 0
  dataLength := 0
  data := List.replicate 512 0
  eyecatcher_length := rfl
  messagePrefix_length := List.length_replicate
  description_length := h
  data_length := List.length_replicate

theorem queued_contained_iff_empty :
    ∃ element, handleService ⟨[]⟩ (some .messageQueueMainPool)
        (.dump (emptyDump (List.replicate 32 0) List.length_replicate)) =
        (RC_CMS_OK, ⟨[] ++ [element]⟩) ∧
      ((∃ text, printElement (fun _ => []) element = .ok text) ↔
        ∀ dumpParm, ServiceParm.dump (emptyDump (List.replicate 32 0) List.length_replicate) =
          .dump dumpParm → 0 ∈ dumpParm.descriptionNullTerm ∧ dumpParm.dataLength.toNat ≤ 512) :=
  queued_contained_iff ⟨[]⟩ .messageQueueMainPool rfl

theorem not_printed {server : Server} {cell : CellPool} {parm : DumpServiceParm}
    {element : MsgQueueElement}
    (heyecatcher : parm.eyecatcher = CMS_DUMP_SERVICE_PARM_EYECATCHER)
    (hdescription : 0 ∉ parm.descriptionNullTerm)
    (hqueued : handleService server (some cell) (.dump parm) =
      (RC_CMS_OK, ⟨server.messageQueue ++ [element]⟩)) :
    ¬∃ text, printElement pointerText element = .ok text := by
  have hqueue : handleService server (some cell) (.dump parm) =
      (RC_CMS_OK, ⟨server.messageQueue ++ [⟨cell, .dump parm⟩]⟩) := handleMessage_queued heyecatcher
  rw [hqueue, Prod.mk.injEq, Server.mk.injEq, List.append_cancel_left_eq, List.singleton_inj]
    at hqueued
  rw [← hqueued.2]
  exact fun hprinted => hdescription ((printDumpServiceMsg_ok_iff heyecatcher).mp hprinted).1

/-- A description without an end is read to the next zero behind it. -/
theorem not_queued_contained :
    ¬∀ (pointerText : BitVec 64 → List Byte) (server : Server) (cell : CellPool)
      (parm : ServiceParm), parm.HasEyecatcher →
      ∃ element, handleService server (some cell) parm =
          (RC_CMS_OK, ⟨server.messageQueue ++ [element]⟩) ∧
        ∃ text, printElement pointerText element = .ok text := by
  intro hclaim
  obtain ⟨element, hqueued, hprinted⟩ := hclaim (fun _ => []) ⟨[]⟩ .messageQueueMainPool
    (.dump (emptyDump (List.replicate 32 BLANK) List.length_replicate)) rfl
  refine not_printed rfl ?_ hqueued hprinted
  intro hzero
  exact absurd (List.eq_of_mem_replicate hzero) (by decide)

end Contained

end ServiceMessages
end ZoweCommon
