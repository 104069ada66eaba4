import ZoweCommon.Collections.HashtableMap

/-! The functions of a hashtable whose keys are integers in the place of pointers. They know
neither hash functions nor comparators. -/
namespace ZoweCommon

open Linked (First)

variable {M V : Type}

def POINTER_FROM_INT (key : BitVec 32) : BitVec 64 := key.signExtend 64

def POINTER_FROM_UINT (key : BitVec 32) : BitVec 64 := key.setWidth 64

/-- Also `UINT_FROM_POINTER`: the bits are the same. -/
def INT_FROM_POINTER (key : BitVec 64) : BitVec 32 := key.setWidth 32

namespace Hashtable

/-- Walk a chain for an entry whose key is an integer: the entry, if any, and the one before it. -/
def findInt (ht : Hashtable M (BitVec 64) V) (key : BitVec 32) :
    ℕ → Option ℕ → Option ℕ → Exec (Option ℕ × Option ℕ)
  | _, prev, none => return (prev, none)
  | 0, _, some _ => throw .nonTermination
  | fuel + 1, prev, some entry =>
    match (ht.heap entry).key with
    | .key k =>
      if INT_FROM_POINTER k = key then return (prev, some entry)
      else ht.findInt key fuel (some entry) (ht.next entry)
    | _ => throw .undefinedBehaviour

def walkFromInt (ht : Hashtable M (BitVec 64) V) (place : ℕ) (key : BitVec 32) :
    Exec (Option ℕ × Option ℕ) :=
  ht.findInt key ht.mgr.issued none (ht.backbone place)

def placeInt (ht : Hashtable M (BitVec 64) V) (key : BitVec 32) : ℕ :=
  (key &&& 0x7FFFFFFF#32).toNat % ht.backboneSize

def placeUInt (ht : Hashtable M (BitVec 64) V) (key : BitVec 32) : ℕ :=
  key.toNat % ht.backboneSize

/-- The puts for integers, which differ in the slot and in the pointer that is stored. -/
def putInt (mem : M) (ht : Hashtable M (BitVec 64) V) (place : ℕ) (key : BitVec 32)
    (pointer : BitVec 64) (value : Option V) : Exec (ℕ × Hashtable M (BitVec 64) V) := do
  match ← ht.walkFromInt place key with
  | (_, some entry) =>
    if ht.keepEntry.any (· mem (ht.heap entry).value) then return (2, ht)
    else
      let ht := (ht.reclaimKey entry).reclaimValue entry
      return (1, { ht with
        heap := Function.update ht.heap entry
          { ht.heap entry with key := .key pointer, value := value } })
  | (_, none) =>
    let tail := ht.backbone place
    let (newEntry, mgr) ← fbMgrAlloc ht.readLink ht.mgr
    return (0, { ht with
      mgr := mgr
      heap := Function.update ht.heap newEntry ⟨.key pointer, value, tail⟩
      backbone := Function.update ht.backbone place (some newEntry) })

end Hashtable

open Hashtable (putInt)

/-- An entry is dropped if it has not expired. -/
def htIntGet (mem : M) (ht : Hashtable M (BitVec 64) V) (key : BitVec 32) :
    Exec (Option V × Hashtable M (BitVec 64) V) := do
  let place := ht.placeInt key
  match ← ht.walkFromInt place key with
  | (prev, some entry) =>
    let value := (ht.heap entry).value
    if ht.entryExpired.any (!· mem value) then
      return (none, htDequeue ht place prev entry true)
    else if ht.removeEntry.any (· mem value) then
      return (value, htDequeue ht place prev entry false)
    else return (value, ht)
  | (_, none) => return (none, ht)

def htUIntGet (mem : M) (ht : Hashtable M (BitVec 64) V) (key : BitVec 32) :
    Exec (Option V × Hashtable M (BitVec 64) V) := do
  let place := ht.placeUInt key
  match ← ht.walkFromInt place key with
  | (prev, some entry) =>
    let value := (ht.heap entry).value
    if ht.entryExpired.any (· mem value) then
      return (none, htDequeue ht place prev entry true)
    else if ht.removeEntry.any (· mem value) then
      return (value, htDequeue ht place prev entry false)
    else return (value, ht)
  | (_, none) => return (none, ht)

def htIntPut (mem : M) (ht : Hashtable M (BitVec 64) V) (key : BitVec 32) (value : Option V) :
    Exec (ℕ × Hashtable M (BitVec 64) V) :=
  putInt mem ht (ht.placeInt key) key (POINTER_FROM_INT key) value

def htUIntPut (mem : M) (ht : Hashtable M (BitVec 64) V) (key : BitVec 32) (value : Option V) :
    Exec (ℕ × Hashtable M (BitVec 64) V) :=
  putInt mem ht (ht.placeUInt key) key (POINTER_FROM_UINT key) value

namespace Hashtable

/-- A key with its flavour. -/
inductive Key
  | pointer (key : BitVec 64)
  | int (key : BitVec 32)
  | uint (key : BitVec 32)
  deriving DecidableEq

def Key.toPointer : Key → BitVec 64
  | .pointer key => key
  | .int key => POINTER_FROM_INT key
  | .uint key => POINTER_FROM_UINT key

inductive KeyCall (V : Type)
  | put (key : Key) (value : Option V)
  | get (key : Key)

def KeyCall.key : KeyCall V → Key
  | .put key _ => key
  | .get key => key

/-- The same call of the generic flavour. -/
def KeyCall.generic : KeyCall V → Call (BitVec 64) V
  | .put key value => .put key.toPointer value
  | .get key => .get key.toPointer

def putKey (mem : M) (ht : Hashtable M (BitVec 64) V) (value : Option V) :
    Key → Exec (ℕ × Hashtable M (BitVec 64) V)
  | .pointer key => htPut mem ht key value
  | .int key => htIntPut mem ht key value
  | .uint key => htUIntPut mem ht key value

def getKey (mem : M) (ht : Hashtable M (BitVec 64) V) :
    Key → Exec (Option V × Hashtable M (BitVec 64) V)
  | .pointer key => htGet mem ht key
  | .int key => htIntGet mem ht key
  | .uint key => htUIntGet mem ht key

def performKey (mem : M) (ht : Hashtable M (BitVec 64) V) :
    KeyCall V → Exec (Answer V × Hashtable M (BitVec 64) V)
  | .put key value => (putKey mem ht value key).map fun r => (.status r.1, r.2)
  | .get key => (getKey mem ht key).map fun r => (.value r.1, r.2)

/-- Calls one after the other, each with the memory it finds. -/
def performKeys (ht : Hashtable M (BitVec 64) V) : List (M × KeyCall V) →
    Exec (List (Answer V) × Hashtable M (BitVec 64) V)
  | [] => return ([], ht)
  | (mem, call) :: calls => do
    let (answer, ht) ← ht.performKey mem call
    let (answers, ht) ← ht.performKeys calls
    return (answer :: answers, ht)

/-- No pointer is a key of two flavours. -/
def OwnFlavours (calls : List (M × KeyCall V)) : Prop :=
  ∀ c ∈ calls, ∀ d ∈ calls, c.2.key.toPointer = d.2.key.toPointer → c.2.key = d.2.key

/-! When the flavours agree -/

def slot (ht : Hashtable M (BitVec 64) V) : Key → ℕ
  | .pointer key => (INT_FROM_POINTER key &&& 0x7FFFFFFF#32).toNat % ht.backboneSize
  | .int key => ht.placeInt key
  | .uint key => ht.placeUInt key

/-- The entry at an address has a key with the bits of an integer. -/
def HasBits (ht : Hashtable M (BitVec 64) V) (key : BitVec 32) (a : ℕ) : Prop :=
  ∃ k, (ht.heap a).key = .key k ∧ INT_FROM_POINTER k = key

/-- The first entry with the bits of an integer, in the slot searched for it, is its own. -/
def Unmistakable (ht : Hashtable M (BitVec 64) V) (key : Key) : Prop :=
  ∀ k, key = .int k ∨ key = .uint k → ∀ a,
    First ht.next (ht.HasBits k) (ht.backbone (ht.slot key)) a →
      (ht.heap a).key = .key key.toPointer

/-- An `int` that is there is got only where nothing tells whether an entry has expired. -/
def Unexpiring (ht : Hashtable M (BitVec 64) V) : KeyCall V → Prop
  | .get (.int key) => ht.entryExpired = none ∨
    ∀ a, ¬First ht.next (ht.HasBits key) (ht.backbone (ht.placeInt key)) a
  | _ => True

/-- Before each call of a run the table is such that its flavour does as the generic one. -/
def RunMeets (ht : Hashtable M (BitVec 64) V) : List (M × KeyCall V) → Prop
  | [] => True
  | (mem, call) :: calls => (ht.Unmistakable call.key ∧ ht.Unexpiring call) ∧
    ∀ answer ht', ht.performKey mem call = .ok (answer, ht') → ht'.RunMeets calls

end Hashtable
end ZoweCommon
