import ZoweCommon.Basic.CString
import ZoweCommon.Basic.Exec
import ZoweCommon.Lib.Chain

/-! The map in common storage, used by one thread. -/
namespace ZoweCommon

def CM_MAP_MAX_KEY_SIZE : ℕ := 64
def CM_MAP_BUCKET_COUNT : ℕ := 29

/-- The memory from the address of a key on. -/
abbrev KeyBuffer := ℕ → Byte

structure CrossMemoryMapEntry where
  next : Option ℕ
  value : Option ℕ
  key : List Byte
  deriving DecidableEq

/-- The cell pool knows the cells it has handed out. -/
structure CrossMemoryMap where
  keySize : ℕ
  entryCellpool : ℕ → Bool
  buckets : ℕ → Option ℕ
  heap : ℕ → CrossMemoryMapEntry

def makeCrossMemoryMap (heap : ℕ → CrossMemoryMapEntry) (keySize : ℕ) : Option CrossMemoryMap :=
  if keySize > CM_MAP_MAX_KEY_SIZE then none
  else some
    { keySize := keySize
      entryCellpool := fun _ => false
      buckets := fun _ => none
      heap := heap }

/-- Four bytes as an `unsigned int`. -/
def word (target : KeyBuffer) (i : ℕ) : BitVec 32 :=
  target i ++ target (i + 1) ++ target (i + 2) ++ target (i + 3)

/-- One round for each `i` below the size, in steps of four. -/
def calculateKeyHash (key : KeyBuffer) (size : ℕ) : BitVec 32 :=
  (List.range ((size + 3) / 4)).foldl (fun hash i => hash ^^^ word key (4 * i)) 0

namespace CrossMemoryMap

def next (map : CrossMemoryMap) (entry : ℕ) : Option ℕ := (map.heap entry).next

/-- The bytes that `memcmp` and `memcpy` look at. -/
def keyBytes (keySize : ℕ) (key : KeyBuffer) : List Byte := (List.range keySize).map key

def bucketID (keySize : ℕ) (key : KeyBuffer) : ℕ :=
  (calculateKeyHash key keySize).toNat % CM_MAP_BUCKET_COUNT

/-- A chain longer than the fuel is taken for a cycle. -/
def findEntry (map : CrossMemoryMap) (key : KeyBuffer) : ℕ → Option ℕ → Exec (Option ℕ)
  | _, none => return none
  | 0, some _ => throw .nonTermination
  | fuel + 1, some currEntry =>
    if (map.heap currEntry).key = keyBytes map.keySize key then return some currEntry
    else map.findEntry key fuel (map.next currEntry)

/-- The cell's old contents are overwritten. -/
def makeEntry (map : CrossMemoryMap) (entry : ℕ) (key : KeyBuffer) (value : Option ℕ) :
    CrossMemoryMap :=
  { map with
    entryCellpool := Function.update map.entryCellpool entry true
    heap := Function.update map.heap entry
      { next := none, value := value, key := keyBytes map.keySize key } }

def setNext (map : CrossMemoryMap) (entry : ℕ) (chain : Option ℕ) : CrossMemoryMap :=
  { map with heap := Function.update map.heap entry { map.heap entry with next := chain } }

def removeEntry (map : CrossMemoryMap) (entry : ℕ) : CrossMemoryMap :=
  { map with entryCellpool := Function.update map.entryCellpool entry false }

def setBucket (map : CrossMemoryMap) (bucketID entry : ℕ) : CrossMemoryMap :=
  { map with buckets := Function.update map.buckets bucketID (some entry) }

/-- The loop over the compare-and-swap, which reads the chain anew when it fails. -/
def swapIn (map : CrossMemoryMap) (key : KeyBuffer) (newEntry : ℕ) :
    ℕ → Option ℕ → Exec (CrossMemoryMap × ℤ)
  | 0, _ => throw .nonTermination
  | fuel + 1, chain => do
    let id := bucketID map.keySize key
    if map.buckets id = chain then return (map.setBucket id newEntry, 0)
    else
      let chain := map.buckets id
      match ← map.findEntry key fuel chain with
      | some _ => return (map.removeEntry newEntry, 1)
      | none => (map.setNext newEntry chain).swapIn key newEntry fuel chain

section

variable (cmCellPoolGet : (ℕ → Bool) → Option ℕ) (fuel : ℕ)

def crossMemoryMapPut (map : CrossMemoryMap) (key : KeyBuffer) (value : Option ℕ) :
    Exec (CrossMemoryMap × ℤ) := do
  let chain := map.buckets (bucketID map.keySize key)
  match ← map.findEntry key fuel chain with
  | some _ => return (map, 1)
  | none =>
    match cmCellPoolGet map.entryCellpool with
    | none => return (map, -1)
    | some newEntry =>
      ((map.makeEntry newEntry key value).setNext newEntry chain).swapIn key newEntry (fuel + 1) chain

def crossMemoryMapGetHandle (map : CrossMemoryMap) (key : KeyBuffer) : Exec (Option ℕ) :=
  map.findEntry key fuel (map.buckets (bucketID map.keySize key))

def crossMemoryMapGet (map : CrossMemoryMap) (key : KeyBuffer) : Exec (Option ℕ) := do
  match ← map.crossMemoryMapGetHandle fuel key with
  | some entry => return (map.heap entry).value
  | none => return none

def putAll : CrossMemoryMap → List (KeyBuffer × Option ℕ) → Exec (CrossMemoryMap × List ℤ)
  | map, [] => return (map, [])
  | map, (key, value) :: puts => do
    let (map, result) ← map.crossMemoryMapPut cmCellPoolGet fuel key value
    let (map, results) ← putAll map puts
    return (map, result :: results)

end

end CrossMemoryMap
end ZoweCommon
