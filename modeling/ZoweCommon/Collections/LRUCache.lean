import ZoweCommon.Collections.Hashtable

/-! The LRU cache: elements on a doubly linked recency list, found through a hashtable
whose keys point into the elements. Trace output is left out. -/
namespace ZoweCommon

def LRU_DIGEST_LENGTH : ℕ := 16

/-- The bytes of a digest. -/
abbrev Digest := Vector (BitVec 8) LRU_DIGEST_LENGTH

/-- Data are pointers, so `none` is the null pointer. -/
structure LRUElement (D : Type) where
  newer : Option ℕ
  older : Option ℕ
  digest : Digest
  data : Option D

/-- A pointer to a digest: the caller's own copy, or the digest field of an element. -/
inductive DigestPtr
  | caller (digest : Digest)
  | element (address : ℕ)
  deriving DecidableEq

namespace DigestPtr

/-- The bytes a pointer leads to, given what the digest fields of the elements hold. -/
def read (digests : ℕ → Digest) : DigestPtr → Digest
  | .caller digest => digest
  | .element address => digests address

end DigestPtr

instance : Pointer DigestPtr where
  intFromPointer
    | .caller _ => 0
    | .element address => BitVec.ofNat 32 address

/-- The `int` at an offset of a digest, most significant byte first. -/
def intAt (digest : Digest) (offset : ℕ) : BitVec 32 :=
  digest[offset]! ++ digest[offset + 1]! ++ digest[offset + 2]! ++ digest[offset + 3]!

def digestHash (digests : ℕ → Digest) (key : DigestPtr) : BitVec 32 :=
  let digest := key.read digests
  (intAt digest 0 ^^^ intAt digest 4 ^^^ intAt digest 8 ^^^ intAt digest 12) &&& 0x7FFFFFFF#32

def digestCompare (digests : ℕ → Digest) (k1 k2 : DigestPtr) : Bool :=
  k1.read digests == k2.read digests

/-- `safeMalloc n` is where the storage for the `n`-th element lies. -/
structure LRUCache (D : Type) where
  size : ℕ
  count : ℕ
  oldest : Option ℕ
  newest : Option ℕ
  ht : Hashtable (ℕ → Digest) DigestPtr ℕ
  heap : ℕ → LRUElement D
  safeMalloc : ℕ → ℕ
  allocated : ℕ

variable {D : Type}

def makeLRUCache (htMalloc safeMalloc : ℕ → ℕ) (size : ℕ) : LRUCache D where
  size := size
  count := 0
  oldest := none
  newest := none
  ht := htCreate htMalloc 257 (some digestHash) (some digestCompare) false false
  heap := fun _ => ⟨none, none, Vector.replicate _ 0, none⟩
  safeMalloc := safeMalloc
  allocated := 0

namespace LRUCache

def newer (cache : LRUCache D) (a : ℕ) : Option ℕ := (cache.heap a).newer

def older (cache : LRUCache D) (a : ℕ) : Option ℕ := (cache.heap a).older

def digest (cache : LRUCache D) (a : ℕ) : Digest := (cache.heap a).digest

def data (cache : LRUCache D) (a : ℕ) : Option D := (cache.heap a).data

def setNewer (cache : LRUCache D) (a : ℕ) (p : Option ℕ) : LRUCache D :=
  { cache with heap := Function.update cache.heap a { cache.heap a with newer := p } }

def setOlder (cache : LRUCache D) (a : ℕ) (p : Option ℕ) : LRUCache D :=
  { cache with heap := Function.update cache.heap a { cache.heap a with older := p } }

def setHt (cache : LRUCache D) (ht : Hashtable (ℕ → Digest) DigestPtr ℕ) : LRUCache D :=
  { cache with ht := ht }

def setNewest (cache : LRUCache D) (p : Option ℕ) : LRUCache D := { cache with newest := p }

def setOldest (cache : LRUCache D) (p : Option ℕ) : LRUCache D := { cache with oldest := p }

/-- The `memcpy` of the digest and the assignment of the data that follows it. -/
def setContent (cache : LRUCache D) (a : ℕ) (digest : Digest) (data : Option D) : LRUCache D :=
  { cache with heap := Function.update cache.heap a { cache.heap a with digest := digest, data := data } }

end LRUCache

/-- A pointer about to be followed. -/
def deref (p : Option ℕ) : Exec ℕ :=
  match p with
  | some a => return a
  | none => throw .undefinedBehaviour

def lruGet (cache : LRUCache D) (digest : Digest) : Exec (Option D × LRUCache D) := do
  let (element, ht) ← htGet cache.digest cache.ht (.caller digest)
  let cache := cache.setHt ht
  match element with
  | some element => return (cache.data element, cache)
  | none => return (none, cache)

def allocLRUElement (cache : LRUCache D) : Option ℕ × LRUCache D :=
  if cache.count < cache.size then
    (some (cache.safeMalloc cache.allocated),
      { cache with allocated := cache.allocated + 1, count := cache.count + 1 })
  else (none, cache)

namespace LRUCache

/-- The digest is in the cache already. -/
def recache (cache : LRUCache D) (existingElement : ℕ) : Exec (LRUCache D) := do
  if cache.newest = some existingElement then return cache
  else if cache.oldest = some existingElement then
    let newOldest := cache.newer existingElement
    let cache := cache.setNewer existingElement none
    let front ← deref (if cache.count = 2 then newOldest else cache.newest)
    let cache := cache.setNewer front (some existingElement)
    let cache := cache.setOlder existingElement cache.newest
    let second ← deref newOldest
    let cache := cache.setOlder second none
    return (cache.setOldest newOldest).setNewest (some existingElement)
  else
    let prev := cache.older existingElement
    let next := cache.newer existingElement
    let cache := cache.setNewer existingElement none
    let cache := cache.setOlder existingElement cache.newest
    let front ← deref cache.newest
    let cache := cache.setNewer front (some existingElement)
    let cache := cache.setNewest (some existingElement)
    let prevElement ← deref prev
    let cache := cache.setNewer prevElement next
    let nextElement ← deref next
    return cache.setOlder nextElement prev

def linkNewest (cache : LRUCache D) (newElement : ℕ) : LRUCache D :=
  match cache.oldest, cache.newest with
  | some _, some oldNewest =>
    let cache := cache.setOlder newElement cache.newest
    let cache := cache.setNewest (some newElement)
    cache.setNewer oldNewest (some newElement)
  | _, _ =>
    let cache := cache.setOlder newElement none
    (cache.setNewest (some newElement)).setOldest (some newElement)

/-- There is room for one more element. -/
def fill (cache : LRUCache D) (digest : Digest) (thing : Option D) : Exec (LRUCache D) := do
  let (newElement, cache) := allocLRUElement cache
  let newElement ← deref newElement
  let cache := cache.setContent newElement digest thing
  let cache := cache.setNewer newElement none
  let cache := cache.linkNewest newElement
  let (_, ht) ← htPut cache.digest cache.ht (.element newElement) (some newElement)
  return cache.setHt ht

/-- The cache is full and holds two elements or more. -/
def recycle (cache : LRUCache D) (digest : Digest) (thing : Option D) :
    Exec (Option D × LRUCache D) := do
  let oldOldest ← deref cache.oldest
  let secondOldest := cache.newer oldOldest
  let (recycled, ht) ← htGet cache.digest cache.ht (.element oldOldest)
  let cache := cache.setHt ht
  let recycledElement ← deref recycled
  let decached := cache.data recycledElement
  let (_, ht) ← htRemove cache.digest cache.ht (.element oldOldest)
  let cache := cache.setHt ht
  let cache := cache.setContent recycledElement digest thing
  let cache := cache.setNewer recycledElement none
  let cache := cache.setOlder recycledElement cache.newest
  let oldNewest ← deref cache.newest
  let cache := cache.setNewer oldNewest (some recycledElement)
  let cache := (cache.setNewest (some recycledElement)).setOldest secondOldest
  let second ← deref secondOldest
  let cache := cache.setOlder second none
  let (_, ht) ← htPut cache.digest cache.ht (.element recycledElement) (some recycledElement)
  return (decached, cache.setHt ht)

def recycleOnly (cache : LRUCache D) (digest : Digest) (thing : Option D) :
    Exec (Option D × LRUCache D) := do
  let recycledElement ← deref cache.oldest
  let decached := cache.data recycledElement
  let (_, ht) ← htRemove cache.digest cache.ht (.element recycledElement)
  let cache := cache.setHt ht
  let cache := cache.setContent recycledElement digest thing
  let (_, ht) ← htPut cache.digest cache.ht (.element recycledElement) (some recycledElement)
  return (decached, cache.setHt ht)

end LRUCache

/-- The element that falls out of the cache, if any, is handed back. -/
def lruStore (cache : LRUCache D) (digest : Digest) (thing : Option D) :
    Exec (Option D × LRUCache D) := do
  let (existing, ht) ← htGet cache.digest cache.ht (.caller digest)
  let cache := cache.setHt ht
  match existing with
  | some existingElement =>
    let cache ← cache.recache existingElement
    return (none, cache)
  | none =>
    if cache.count < cache.size then
      let cache ← cache.fill digest thing
      return (none, cache)
    else if 2 ≤ cache.size then cache.recycle digest thing
    else if cache.size = 1 then cache.recycleOnly digest thing
    else return (none, cache)

end ZoweCommon
