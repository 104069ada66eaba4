import Mathlib.Data.List.DropRight
import Mathlib.Data.List.Forall2
import ZoweCommon.Basic.Ebcdic
import ZoweCommon.Basic.Exec

/-! The directory of a partitioned data set, and the two readers of it. The programs are those that
do not run in Metal C. -/
namespace ZoweCommon
namespace Pds

open CString

/-- What one `fread` of the directory gives. -/
structure Block where
  bytes : List Byte
  length_eq : bytes.length = 256

namespace Block

def byteAt (block : Block) (i : ℕ) : Exec Byte :=
  match block.bytes[i]? with
  | some byte => return byte
  | none => throw .undefinedBehaviour

/-- What `memcpy` takes out of a block. -/
def copy (block : Block) (i count : ℕ) : Exec (List Byte) :=
  if i + count ≤ block.bytes.length then return (block.bytes.drop i).take count
  else throw .undefinedBehaviour

end Block

def BLANK : Byte := Ebcdic.toIbm1047 0x20

def pdsEndName : List Byte := List.replicate 8 0xFF

/-- `//'%s'`, in a buffer of 50 bytes. -/
def directoryFilename (pdsName : CString) : Exec CString :=
  let filename := Ebcdic.literal "//'" ++ pdsName.bytes ++ Ebcdic.literal "'"
  if filename.length < 50 then return ofBytes filename else throw .undefinedBehaviour

def addToStringListUnique (list : List CString) (s : CString) : List CString :=
  if s ∈ list then list else list ++ [s]

def entryLength (flags : Byte) : ℕ := 12 + 2 * (flags &&& 0x1F).toNat

/-- Whether it was the last block, and the names. The block is read to its end. -/
def listBlock (block : Block) (list : List CString) (posInBlock : ℕ) :
    Exec (Bool × List CString) :=
  if posInBlock < 256 then do
    let flags ← block.byteAt (posInBlock + 11)
    let name ← block.copy posInBlock 8
    if ofBytes name = ofBytes pdsEndName then return (true, list)
    listBlock block (addToStringListUnique list (ofBytes name)) (posInBlock + entryLength flags)
  else return (false, list)
termination_by 256 - posInBlock
decreasing_by
  unfold entryLength
  omega

/-- At the end of the file nothing is read any more, and the list is returned. -/
def listBlocks (list : List CString) : List Block → Exec (List CString)
  | [] => return list
  | block :: blocks => do
    let (lastBlock, list) ← listBlock block list 2
    if lastBlock then return list else listBlocks list blocks

/-- The file system has the blocks of a file. -/
def getPDSMembers (fopen : CString → Option (List Block)) (pdsName : CString) :
    Exec (List CString) := do
  match fopen (← directoryFilename pdsName) with
  | none => return []
  | some blocks => listBlocks [] blocks

/-- What is still to be read, and whether there was a read after it. -/
structure File where
  blocks : List Block
  eof : Bool

structure PDSIterator where
  file : File
  block : Block
  posInBlock : ℕ
  bytesInBlock : ℤ
  currentPosInBlock : ℕ
  done : Bool
  memberName : List Byte

def startPDSIterator (fopen : CString → Option (List Block)) (pdsName : CString) :
    Exec (Option PDSIterator) := do
  match fopen (← directoryFilename pdsName) with
  | none => return none
  | some blocks => return some {
      file := ⟨blocks, false⟩
      block := ⟨List.replicate 256 0, List.length_replicate⟩
      posInBlock := 0
      bytesInBlock := -1
      currentPosInBlock := 0
      done := false
      memberName := List.replicate 9 0 }

def endAtBlank : List Byte → List Byte
  | [] => []
  | c :: name => if c = BLANK then 0 :: name else c :: endAtBlank name

/-- The block, when there is no more the old one. -/
def fread (block : Block) (file : File) : Block × File :=
  match file.blocks with
  | [] => (block, ⟨[], true⟩)
  | next :: blocks => (next, ⟨blocks, file.eof⟩)

/-- The two bytes at the begin of a block. -/
def usedLength (block : Block) : Exec ℕ := do
  let high ← block.byteAt 0
  let low ← block.byteAt 1
  return high.toNat * 256 + low.toNat

/-- Whether there is another entry at the position, and the iterator behind it. -/
def readEntry (iterator : PDSIterator) : Exec (Bool × PDSIterator) := do
  let name ← iterator.block.copy iterator.posInBlock 8
  let iterator := {
    iterator with
    currentPosInBlock := iterator.posInBlock
    memberName := endAtBlank name ++ [0] }
  let flags ← iterator.block.byteAt (iterator.posInBlock + 11)
  if iterator.memberName.take 8 = pdsEndName then return (false, { iterator with done := true })
  else return (true, { iterator with posInBlock := iterator.posInBlock + entryLength flags })

/-- Of a block that was just read, the first entry is taken without a look at its used length. -/
def nextPDSEntry (iterator : PDSIterator) : Exec (Bool × PDSIterator) :=
  if iterator.done then return (false, iterator)
  else if iterator.bytesInBlock ≤ iterator.posInBlock then
    if iterator.file.eof then return (false, { iterator with done := true })
    else do
      let (block, file) := fread iterator.block iterator.file
      let bytesInBlock ← usedLength block
      readEntry { iterator with block, file, bytesInBlock, posInBlock := 2 }
  else readEntry iterator

/-- The names that the calls give until one of them returns zero. -/
def iterated : ℕ → PDSIterator → Exec (List CString)
  | 0, _ => throw .nonTermination
  | calls + 1, iterator => do
    let (found, iterator) ← nextPDSEntry iterator
    if found then return ofBytes iterator.memberName :: (← iterated calls iterator)
    else return []

/-- An entry of a directory. -/
structure Entry where
  name : List Byte
  ttr : List Byte
  flags : Byte
  userData : List Byte
  name_length : name.length = 8
  ttr_length : ttr.length = 3
  userData_length : userData.length = 2 * (flags &&& 0x1F).toNat

def Entry.bytes (e : Entry) : List Byte := e.name ++ e.ttr ++ e.flags :: e.userData

/-- How many bytes of a block the entries use, together with the number itself. -/
def used (entries : List Entry) : ℕ := 2 + (entries.flatMap Entry.bytes).length

/-- A block holds these entries, and anything after them. -/
def Block.Holds (block : Block) (entries : List Entry) : Prop :=
  ∃ rest, block.bytes =
    BitVec.ofNat 8 (used entries / 256) :: BitVec.ofNat 8 (used entries) ::
      (entries.flatMap Entry.bytes ++ rest)

/-- The entries of a directory, block by block. The last one has the highest name there is. -/
structure Directory where
  before : List (List Entry)
  last : List Entry
  endEntry : Entry
  endEntry_name : endEntry.name = pdsEndName
  fits_before : ∀ entries ∈ before, used entries ≤ 256
  fits_last : used (last ++ [endEntry]) ≤ 256
  distinct : ((before.flatten ++ last ++ [endEntry]).map Entry.name).Nodup

namespace Directory

def members (d : Directory) : List Entry := d.before.flatten ++ d.last

/-- What is behind the last entry is unpredictable, and so are the blocks after it. -/
def Written (d : Directory) (blocks : List Block) : Prop :=
  ∃ pre block post, blocks = pre ++ block :: post ∧ List.Forall₂ Block.Holds pre d.before ∧
    block.Holds (d.last ++ [d.endEntry])

end Directory

def withoutTrailingBlanks (name : List Byte) : List Byte := name.rdropWhile (· = BLANK)

/-- Both readers stay in the block and give the names in their order. -/
structure Exact (fopen : CString → Option (List Block)) (pdsName : CString)
    (members : List Entry) : Prop where
  listed : ∃ list, getPDSMembers fopen pdsName = .ok list ∧
    list.map CString.bytes = members.map Entry.name
  iterated : ∃ iterator calls names, startPDSIterator fopen pdsName = .ok (some iterator) ∧
    iterated calls iterator = .ok names ∧
    names.map CString.bytes = members.map fun e => withoutTrailingBlanks e.name

/-- A name as it should be: a text, padded with blanks. -/
def IsPadded (name : List Byte) : Prop :=
  ∃ text count, name = text ++ List.replicate count BLANK ∧ NoNul text ∧ BLANK ∉ text

end Pds
end ZoweCommon
