import Mathlib.Data.Finset.Card
import ZoweCommon.Lib.Chain
import ZoweCommon.Collections.FixedBlock

/-! The chained hashtable. Entries live in blocks of a fixed block manager; keys are
pointers into a memory of type `M`, which the callbacks of a table may read. -/
namespace ZoweCommon

/-- The first word of a block: the key of a live entry, or the free-list link of a freed one. -/
inductive Word (K : Type)
  | null
  | key (k : K)
  | link (next : Option ℕ)

/-- Values are pointers, so `none` is the null value. -/
structure Hashentry (K V : Type) where
  key : Word K
  value : Option V
  next : Option ℕ

/-- Calls made to the reclaimers of a table and to the destroyer of a prune. -/
inductive Reclaim (K V : Type)
  | key (w : Word K)
  | value (v : Option V)
  | destroy (v : Option V)

/-- The conversion of a key pointer to an `int`. -/
class Pointer (K : Type) where
  intFromPointer : K → BitVec 32

instance : Pointer (BitVec 64) where
  intFromPointer key := key.setWidth 32

structure Hashtable (M K V : Type) where
  backboneSize : ℕ
  backbone : ℕ → Option ℕ
  mgr : FixedBlockMgr
  heap : ℕ → Hashentry K V
  hashFunction : Option (M → K → BitVec 32)
  comparator : Option (M → K → K → Bool)
  keyReclaimer : Bool
  valueReclaimer : Bool
  keepEntry : Option (M → Option V → Bool)
  entryExpired : Option (M → Option V → Bool)
  removeEntry : Option (M → Option V → Bool)
  reclaimed : List (Reclaim K V)

def HASHENTRY_SIZE : ℕ := 24

variable {M K V : Type}

def htCreate (safeMalloc : ℕ → ℕ) (backboneSize : ℕ) (hash : Option (M → K → BitVec 32))
    (compare : Option (M → K → K → Bool)) (keyReclaimer valueReclaimer : Bool) :
    Hashtable M K V where
  backboneSize := backboneSize
  backbone := fun _ => none
  mgr := fbMgrCreate safeMalloc HASHENTRY_SIZE 256
  heap := fun _ => ⟨.null, none, none⟩
  hashFunction := hash
  comparator := compare
  keyReclaimer := keyReclaimer
  valueReclaimer := valueReclaimer
  keepEntry := none
  entryExpired := none
  removeEntry := none
  reclaimed := []

def htAlter (ht : Hashtable M K V)
    (keepEntry entryExpired removeEntry : Option (M → Option V → Bool)) : Hashtable M K V :=
  { ht with keepEntry := keepEntry, entryExpired := entryExpired, removeEntry := removeEntry }

namespace Hashtable

variable [DecidableEq K] [Pointer K]

def hashcode (mem : M) (ht : Hashtable M K V) (key : K) : BitVec 32 :=
  (match ht.hashFunction with
    | some hash => hash mem key
    | none => Pointer.intFromPointer key) &&& 0x7FFFFFFF#32

def place (mem : M) (ht : Hashtable M K V) (key : K) : ℕ :=
  (ht.hashcode mem key).toNat % ht.backboneSize

omit [Pointer K] in
def compare (mem : M) (ht : Hashtable M K V) (key1 key2 : K) : Bool :=
  match ht.comparator with
  | some compare => compare mem key1 key2
  | none => key1 == key2

def next (ht : Hashtable M K V) (a : ℕ) : Option ℕ := (ht.heap a).next

def readLink (ht : Hashtable M K V) (a : ℕ) : Exec (Option ℕ) :=
  match (ht.heap a).key with
  | .link q => return q
  | _ => throw .undefinedBehaviour

/-- Walk a chain for an entry with an equal key: the entry, if any, and the one before it. -/
def find (mem : M) (ht : Hashtable M K V) (key : K) :
    ℕ → Option ℕ → Option ℕ → Exec (Option ℕ × Option ℕ)
  | _, prev, none => return (prev, none)
  | 0, _, some _ => throw .nonTermination
  | fuel + 1, prev, some entry =>
    match (ht.heap entry).key with
    | .key k =>
      if ht.compare mem k key then return (prev, some entry)
      else ht.find mem key fuel (some entry) (ht.next entry)
    | _ => throw .undefinedBehaviour

/-- A chain longer than the blocks ever cut is a cycle. -/
def walkFrom (mem : M) (ht : Hashtable M K V) (place : ℕ) (key : K) :
    Exec (Option ℕ × Option ℕ) :=
  ht.find mem key ht.mgr.issued none (ht.backbone place)

def unlink (ht : Hashtable M K V) (place : ℕ) (prev : Option ℕ) (entry : ℕ) : Hashtable M K V :=
  match prev with
  | none => { ht with backbone := Function.update ht.backbone place (ht.next entry) }
  | some p =>
    { ht with heap := Function.update ht.heap p { ht.heap p with next := ht.next entry } }

def reclaimKey (ht : Hashtable M K V) (entry : ℕ) : Hashtable M K V :=
  if ht.keyReclaimer then { ht with reclaimed := ht.reclaimed ++ [.key (ht.heap entry).key] } else ht

def reclaimValue (ht : Hashtable M K V) (entry : ℕ) : Hashtable M K V :=
  if ht.valueReclaimer then { ht with reclaimed := ht.reclaimed ++ [.value (ht.heap entry).value] }
  else ht

/-- Null the key and the value, then hand the block back; its link overwrites the key. -/
def release (ht : Hashtable M K V) (entry : ℕ) : Hashtable M K V :=
  let (link, mgr) := fbMgrFree ht.mgr entry
  { ht with
    heap := Function.update ht.heap entry { ht.heap entry with key := .link link, value := none }
    mgr := mgr }

end Hashtable

def htDequeue (ht : Hashtable M K V) (place : ℕ) (prev : Option ℕ) (entry : ℕ)
    (valueReclaim : Bool) : Hashtable M K V :=
  let ht := (ht.unlink place prev entry).reclaimKey entry
  let ht := if valueReclaim then ht.reclaimValue entry else ht
  ht.release entry

variable [DecidableEq K] [Pointer K]

def htGet (mem : M) (ht : Hashtable M K V) (key : K) : Exec (Option V × Hashtable M K V) := do
  let place := ht.place mem key
  match ← ht.walkFrom mem place key with
  | (prev, some entry) =>
    let value := (ht.heap entry).value
    if ht.entryExpired.any (· mem value) then
      return (none, htDequeue ht place prev entry true)
    else if ht.removeEntry.any (· mem value) then
      return (value, htDequeue ht place prev entry false)
    else return (value, ht)
  | (_, none) => return (none, ht)

def htPut2 (mem : M) (ht : Hashtable M K V) (key : K) (value : Option V) :
    Exec (ℕ × Hashtable M K V) := do
  let place := ht.place mem key
  match ← ht.walkFrom mem place key with
  | (_, some entry) =>
    if ht.keepEntry.any (· mem (ht.heap entry).value) then return (2, ht)
    else
      let ht := (ht.reclaimKey entry).reclaimValue entry
      return (1, { ht with
        heap := Function.update ht.heap entry { ht.heap entry with key := .key key, value := value } })
  | (_, none) =>
    let tail := ht.backbone place
    let (newEntry, mgr) ← fbMgrAlloc ht.readLink ht.mgr
    return (0, { ht with
      mgr := mgr
      heap := Function.update ht.heap newEntry ⟨.key key, value, tail⟩
      backbone := Function.update ht.backbone place (some newEntry) })

def htPut (mem : M) (ht : Hashtable M K V) (key : K) (value : Option V) :
    Exec (ℕ × Hashtable M K V) :=
  htPut2 mem ht key value

def htRemove (mem : M) (ht : Hashtable M K V) (key : K) : Exec (ℕ × Hashtable M K V) := do
  let place := ht.place mem key
  match ← ht.walkFrom mem place key with
  | (prev, some entry) => return (1, htDequeue ht place prev entry true)
  | (_, none) => return (0, ht)

namespace Hashtable

/-- `htPrune` unlinks by hand, reclaims the key only, and calls the destroyer if there is one. -/
def pruneEntry (ht : Hashtable M K V) (place : ℕ) (prev : Option ℕ) (entry : ℕ)
    (destroyer : Bool) : Hashtable M K V :=
  let tmpValue := (ht.heap entry).value
  let ht := (ht.unlink place prev entry).reclaimKey entry
  let ht := if destroyer then { ht with reclaimed := ht.reclaimed ++ [.destroy tmpValue] } else ht
  ht.release entry

/-- The inner loop of `htPrune`. The successor is read before the block is handed back. -/
def pruneChain (matcher : K → Option V → Bool) (destroyer : Bool) (place : ℕ) :
    ℕ → Option ℕ → Option ℕ → Hashtable M K V → ℕ → Exec (Hashtable M K V × ℕ)
  | _, _, none, ht, numpruned => return (ht, numpruned)
  | 0, _, some _, _, _ => throw .nonTermination
  | fuel + 1, prev, some entry, ht, numpruned =>
    match (ht.heap entry).key with
    | .key k =>
      if matcher k (ht.heap entry).value then
        pruneChain matcher destroyer place fuel prev (ht.next entry)
          (ht.pruneEntry place prev entry destroyer) (numpruned + 1)
      else pruneChain matcher destroyer place fuel (some entry) (ht.next entry) ht numpruned
    | _ => throw .undefinedBehaviour

/-- The loop over the backbone, from slot `i` on with `left` slots to go. -/
def pruneSlots (matcher : K → Option V → Bool) (destroyer : Bool) :
    ℕ → ℕ → Hashtable M K V → ℕ → Exec (Hashtable M K V × ℕ)
  | 0, _, ht, numpruned => return (ht, numpruned)
  | left + 1, i, ht, numpruned => do
    let (ht, numpruned) ←
      pruneChain matcher destroyer i ht.mgr.issued none (ht.backbone i) ht numpruned
    pruneSlots matcher destroyer left (i + 1) ht numpruned

def countChain (ht : Hashtable M K V) : ℕ → Option ℕ → ℕ → Exec ℕ
  | _, none, count => return count
  | 0, some _, _ => throw .nonTermination
  | fuel + 1, some entry, count => ht.countChain fuel (ht.next entry) (count + 1)

def countSlots (ht : Hashtable M K V) : ℕ → ℕ → ℕ → Exec ℕ
  | 0, _, count => return count
  | left + 1, i, count => do
    let count ← ht.countChain ht.mgr.issued (ht.backbone i) count
    ht.countSlots left (i + 1) count

/-- The inner loop of `htDestroy`. -/
def destroyChain : ℕ → Option ℕ → Hashtable M K V → Exec (Hashtable M K V)
  | _, none, ht => return ht
  | 0, some _, _ => throw .nonTermination
  | fuel + 1, some entry, ht =>
    destroyChain fuel (ht.next entry) ((ht.reclaimKey entry).reclaimValue entry)

def destroySlots : ℕ → ℕ → Hashtable M K V → Exec (Hashtable M K V)
  | 0, _, ht => return ht
  | left + 1, i, ht => do
    let ht ← destroyChain ht.mgr.issued (ht.backbone i) ht
    destroySlots left (i + 1) ht

end Hashtable

def htPrune (ht : Hashtable M K V) (matcher : K → Option V → Bool) (destroyer : Bool) :
    Exec (ℕ × Hashtable M K V) := do
  let (ht, numpruned) ← Hashtable.pruneSlots matcher destroyer ht.backboneSize 0 ht 0
  return (numpruned, ht)

def htCount (ht : Hashtable M K V) : Exec ℕ := ht.countSlots ht.backboneSize 0 0

/-- The storage is freed at the end; what is left is the record of the calls made. -/
def htDestroy (ht : Hashtable M K V) : Exec (List (Reclaim K V)) := do
  if ht.keyReclaimer || ht.valueReclaimer then
    let ht ← Hashtable.destroySlots ht.backboneSize 0 ht
    return ht.reclaimed
  else return ht.reclaimed

end ZoweCommon
