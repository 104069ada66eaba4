import Mathlib.Algebra.Group.Nat.Defs
import ZoweCommon.Collections.HashtableSpec

/-! The hashtable whose keys are 64-bit integers. It is a `Hashtable` with the masked key as
both key and hash code, which is how the facts about one carry over to the other. -/
namespace ZoweCommon

abbrev LongHashEntry (V : Type) := Hashentry (BitVec 64) V

structure LongHashtable (M V : Type) where
  backboneSize : ℕ
  backbone : ℕ → Option ℕ
  mgr : FixedBlockMgr
  heap : ℕ → LongHashEntry V
  valueReclaimer : Bool
  keepEntry : Option (M → Option V → Bool)
  entryExpired : Option (M → Option V → Bool)
  removeEntry : Option (M → Option V → Bool)
  reclaimed : List (Reclaim (BitVec 64) V)

variable {M V : Type}

def lhtCreate (safeMalloc : ℕ → ℕ) (backboneSize : ℕ) (valueReclaimer : Bool) :
    LongHashtable M V where
  backboneSize := backboneSize
  backbone := fun _ => none
  mgr := fbMgrCreate safeMalloc HASHENTRY_SIZE 256
  heap := fun _ => ⟨.null, none, none⟩
  valueReclaimer := valueReclaimer
  keepEntry := none
  entryExpired := none
  removeEntry := none
  reclaimed := []

def lhtAlter (lht : LongHashtable M V)
    (keepEntry entryExpired removeEntry : Option (M → Option V → Bool)) : LongHashtable M V :=
  { lht with keepEntry := keepEntry, entryExpired := entryExpired, removeEntry := removeEntry }

namespace LongHashtable

/-- The key without its sign bit. -/
def mask (key : BitVec 64) : BitVec 64 := key &&& 0x7FFFFFFFFFFFFFFF#64

def place (lht : LongHashtable M V) (key : BitVec 64) : ℕ := key.toNat % lht.backboneSize

def next (lht : LongHashtable M V) (a : ℕ) : Option ℕ := (lht.heap a).next

def readLink (lht : LongHashtable M V) (a : ℕ) : Exec (Option ℕ) :=
  match (lht.heap a).key with
  | .link q => return q
  | _ => throw .undefinedBehaviour

/-- Walk a chain for the entry of a key: the entry, if any, and the one before it. -/
def find (lht : LongHashtable M V) (key : BitVec 64) :
    ℕ → Option ℕ → Option ℕ → Exec (Option ℕ × Option ℕ)
  | _, prev, none => return (prev, none)
  | 0, _, some _ => throw .nonTermination
  | fuel + 1, prev, some entry =>
    match (lht.heap entry).key with
    | .key k =>
      if k = key then return (prev, some entry)
      else lht.find key fuel (some entry) (lht.next entry)
    | _ => throw .undefinedBehaviour

def walkFrom (lht : LongHashtable M V) (place : ℕ) (key : BitVec 64) :
    Exec (Option ℕ × Option ℕ) :=
  lht.find key lht.mgr.issued none (lht.backbone place)

def unlink (lht : LongHashtable M V) (place : ℕ) (prev : Option ℕ) (entry : ℕ) :
    LongHashtable M V :=
  match prev with
  | none => { lht with backbone := Function.update lht.backbone place (lht.next entry) }
  | some p =>
    { lht with heap := Function.update lht.heap p { lht.heap p with next := lht.next entry } }

def reclaimValue (lht : LongHashtable M V) (entry : ℕ) : LongHashtable M V :=
  if lht.valueReclaimer then
    { lht with reclaimed := lht.reclaimed ++ [.value (lht.heap entry).value] }
  else lht

/-- Zero the key and the value, then hand the block back; its link overwrites the key. -/
def release (lht : LongHashtable M V) (entry : ℕ) : LongHashtable M V :=
  let (link, mgr) := fbMgrFree lht.mgr entry
  { lht with
    heap := Function.update lht.heap entry { lht.heap entry with key := .link link, value := none }
    mgr := mgr }

end LongHashtable

def lhtDequeue (lht : LongHashtable M V) (place : ℕ) (prev : Option ℕ) (entry : ℕ)
    (valueReclaim : Bool) : LongHashtable M V :=
  let lht := lht.unlink place prev entry
  let lht := if valueReclaim then lht.reclaimValue entry else lht
  lht.release entry

def lhtGet (mem : M) (lht : LongHashtable M V) (key : BitVec 64) :
    Exec (Option V × LongHashtable M V) := do
  let key := LongHashtable.mask key
  let place := lht.place key
  match ← lht.walkFrom place key with
  | (prev, some entry) =>
    let value := (lht.heap entry).value
    if lht.entryExpired.any (· mem value) then
      return (none, lhtDequeue lht place prev entry true)
    else if lht.removeEntry.any (· mem value) then
      return (value, lhtDequeue lht place prev entry false)
    else return (value, lht)
  | (_, none) => return (none, lht)

def lhtPut (mem : M) (lht : LongHashtable M V) (key : BitVec 64) (value : Option V) :
    Exec (ℕ × LongHashtable M V) := do
  let key := LongHashtable.mask key
  let place := lht.place key
  match ← lht.walkFrom place key with
  | (_, some entry) =>
    if lht.keepEntry.any (· mem (lht.heap entry).value) then return (2, lht)
    else
      let lht := lht.reclaimValue entry
      return (1, { lht with
        heap := Function.update lht.heap entry { lht.heap entry with key := .key key, value := value } })
  | (_, none) =>
    let tail := lht.backbone place
    let (newEntry, mgr) ← fbMgrAlloc lht.readLink lht.mgr
    return (0, { lht with
      mgr := mgr
      heap := Function.update lht.heap newEntry ⟨.key key, value, tail⟩
      backbone := Function.update lht.backbone place (some newEntry) })

def lhtRemove (lht : LongHashtable M V) (key : BitVec 64) : Exec (ℕ × LongHashtable M V) := do
  let key := LongHashtable.mask key
  let place := lht.place key
  match ← lht.walkFrom place key with
  | (prev, some entry) => return (1, lhtDequeue lht place prev entry true)
  | (_, none) => return (0, lht)

/-- Only the storage is freed; what is left is the record of the calls made. -/
def lhtDestroy (lht : LongHashtable M V) : List (Reclaim (BitVec 64) V) := lht.reclaimed

namespace LongHashtable

/-- The table as a `Hashtable` that hashes a key to its slot. -/
def toHashtable (lht : LongHashtable M V) : Hashtable M (BitVec 64) V where
  backboneSize := lht.backboneSize
  backbone := lht.backbone
  mgr := lht.mgr
  heap := lht.heap
  hashFunction := some fun _ key => BitVec.ofNat 32 (key.toNat % lht.backboneSize)
  comparator := none
  keyReclaimer := false
  valueReclaimer := lht.valueReclaimer
  keepEntry := lht.keepEntry
  entryExpired := lht.entryExpired
  removeEntry := lht.removeEntry
  reclaimed := lht.reclaimed

variable {lht : LongHashtable M V}

/-- A backbone size is an `int`, so the slot of a key survives as its hash code. -/
theorem place_toHashtable (hsize : lht.backboneSize < 2 ^ 31) (hpos : 0 < lht.backboneSize)
    (mem : M) (key : BitVec 64) : lht.toHashtable.place mem key = lht.place key := by
  have hlt : key.toNat % lht.backboneSize < lht.backboneSize := Nat.mod_lt _ hpos
  have hmask : (0x7FFFFFFF#32).toNat = 2 ^ 31 - 1 := by decide
  unfold Hashtable.place Hashtable.hashcode LongHashtable.place
  change (BitVec.ofNat 32 (key.toNat % lht.backboneSize) &&& 0x7FFFFFFF#32).toNat %
    lht.backboneSize = _
  have hint : key.toNat % lht.backboneSize < 2 ^ 31 := hlt.trans hsize
  rw [BitVec.toNat_and, BitVec.toNat_ofNat, hmask, Nat.and_two_pow_sub_one_eq_mod,
    Nat.mod_eq_of_lt (hint.trans (by decide)), Nat.mod_eq_of_lt hint, Nat.mod_mod]

theorem find_toHashtable (mem : M) (key : BitVec 64) (fuel : ℕ) : ∀ prev p,
    lht.toHashtable.find mem key fuel prev p = lht.find key fuel prev p := by
  induction fuel with
  | zero =>
    intro prev p
    cases p <;> rfl
  | succ fuel ih =>
    intro prev p
    cases p with
    | none => rfl
    | some entry =>
      have hheap : lht.toHashtable.heap entry = lht.heap entry := rfl
      have hnext : lht.toHashtable.next entry = lht.next entry := rfl
      cases hkey : (lht.heap entry).key with
      | key k =>
        have hcmp : lht.toHashtable.compare mem k key = (k == key) := rfl
        simp only [Hashtable.find, LongHashtable.find, hheap, hkey, hcmp, beq_iff_eq, hnext, ih]
      | null => simp only [Hashtable.find, LongHashtable.find, hheap, hkey]
      | link q => simp only [Hashtable.find, LongHashtable.find, hheap, hkey]

theorem walkFrom_toHashtable (mem : M) (place : ℕ) (key : BitVec 64) :
    lht.toHashtable.walkFrom mem place key = lht.walkFrom place key :=
  find_toHashtable mem key _ _ _

theorem readLink_toHashtable : lht.toHashtable.readLink = lht.readLink := by
  funext a
  have hheap : lht.toHashtable.heap a = lht.heap a := rfl
  unfold Hashtable.readLink LongHashtable.readLink
  rw [hheap]
  cases (lht.heap a).key <;> rfl

theorem unlink_toHashtable (place : ℕ) (prev : Option ℕ) (entry : ℕ) :
    (lht.unlink place prev entry).toHashtable = lht.toHashtable.unlink place prev entry := by
  cases prev <;> rfl

theorem reclaimValue_toHashtable (entry : ℕ) :
    (lht.reclaimValue entry).toHashtable = lht.toHashtable.reclaimValue entry := by
  unfold LongHashtable.reclaimValue Hashtable.reclaimValue
  change _ = if lht.valueReclaimer = true then _ else _
  split_ifs <;> rfl

theorem lhtDequeue_toHashtable (place : ℕ) (prev : Option ℕ) (entry : ℕ) (valueReclaim : Bool) :
    (lhtDequeue lht place prev entry valueReclaim).toHashtable =
      htDequeue lht.toHashtable place prev entry valueReclaim := by
  have hkey : (lht.toHashtable.unlink place prev entry).reclaimKey entry =
      (lht.unlink place prev entry).toHashtable := by
    rw [← unlink_toHashtable]
    rfl
  unfold lhtDequeue htDequeue
  rw [hkey]
  cases valueReclaim with
  | true =>
    simp only [if_true]
    rw [← reclaimValue_toHashtable]
    rfl
  | false => rfl

section

variable (hsize : lht.backboneSize < 2 ^ 31) (hpos : 0 < lht.backboneSize) (mem : M)
  (key : BitVec 64)

include hsize hpos

theorem htGet_toHashtable : htGet mem lht.toHashtable (mask key) =
    (lhtGet mem lht key).map fun r => (r.1, r.2.toHashtable) := by
  unfold htGet lhtGet
  simp only [place_toHashtable hsize hpos, walkFrom_toHashtable]
  cases hwalk : lht.walkFrom (lht.place (mask key)) (mask key) with
  | error fault => rfl
  | ok found =>
    obtain ⟨prev, entry⟩ := found
    cases entry with
    | none => rfl
    | some entry =>
      simp only [Exec.ok_bind, ← lhtDequeue_toHashtable]
      change (if lht.entryExpired.any (· mem (lht.heap entry).value) = true then _ else
        if lht.removeEntry.any (· mem (lht.heap entry).value) = true then _ else _) = _
      split_ifs <;> rfl

theorem htPut_toHashtable (value : Option V) : htPut mem lht.toHashtable (mask key) value =
    (lhtPut mem lht key value).map fun r => (r.1, r.2.toHashtable) := by
  unfold htPut htPut2 lhtPut
  simp only [place_toHashtable hsize hpos, walkFrom_toHashtable]
  cases hwalk : lht.walkFrom (lht.place (mask key)) (mask key) with
  | error fault => rfl
  | ok found =>
    obtain ⟨prev, entry⟩ := found
    cases entry with
    | none =>
      have hmgr : lht.toHashtable.mgr = lht.mgr := rfl
      simp only [Exec.ok_bind, readLink_toHashtable, hmgr]
      cases fbMgrAlloc lht.readLink lht.mgr <;> rfl
    | some entry =>
      have hkey : lht.toHashtable.reclaimKey entry = lht.toHashtable := rfl
      simp only [Exec.ok_bind, hkey, ← reclaimValue_toHashtable]
      change (if lht.keepEntry.any (· mem (lht.heap entry).value) = true then _ else _) = _
      split_ifs <;> rfl

theorem htRemove_toHashtable : htRemove mem lht.toHashtable (mask key) =
    (lhtRemove lht key).map fun r => (r.1, r.2.toHashtable) := by
  unfold htRemove lhtRemove
  simp only [place_toHashtable hsize hpos, walkFrom_toHashtable]
  cases hwalk : lht.walkFrom (lht.place (mask key)) (mask key) with
  | error fault => rfl
  | ok found =>
    obtain ⟨prev, entry⟩ := found
    cases entry with
    | none => rfl
    | some entry =>
      simp only [Exec.ok_bind, ← lhtDequeue_toHashtable]
      rfl

end

end LongHashtable
end ZoweCommon
