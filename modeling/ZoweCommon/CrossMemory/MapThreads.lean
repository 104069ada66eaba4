import Mathlib.Logic.Relation
import ZoweCommon.CrossMemory.Map

/-! The map in common storage, used by any number of threads at once. A step is one access to what
the threads share: a head, an entry on the way along a chain, or a compare-and-swap. -/
namespace ZoweCommon
namespace CrossMemoryMap

/-- Where a thread is in a call, and its local variables there. -/
inductive ThreadState
  | idle
  | putFind (key : KeyBuffer) (value chain currEntry : Option ℕ)
  | putSwap (key : KeyBuffer) (value chain : Option ℕ) (newEntry : ℕ)
  | putFindAgain (key : KeyBuffer) (value chain currEntry : Option ℕ) (newEntry : ℕ)
  | getFind (key : KeyBuffer) (currEntry : Option ℕ)
  | iterate (bucketID : ℕ) (entry : Option ℕ)

/-- What a call returned, or what a visitor was called with. -/
inductive Event
  | put (key : KeyBuffer) (value : Option ℕ) (result : ℤ)
  | getHandle (key : KeyBuffer) (handle : Option ℕ)
  | visit (entry : ℕ)

structure State (T : Type) where
  map : CrossMemoryMap
  threads : T → ThreadState
  log : List Event

namespace State

variable {T : Type} [DecidableEq T]

def goto (s : State T) (t : T) (at' : ThreadState) : State T :=
  { s with threads := Function.update s.threads t at' }

def withMap (s : State T) (map : CrossMemoryMap) : State T := { s with map := map }

def record (s : State T) (event : Event) : State T := { s with log := event :: s.log }

def head (s : State T) (key : KeyBuffer) : Option ℕ := s.map.buckets (bucketID s.map.keySize key)

/-- The `memcmp` of an entry's key. -/
def Matches (s : State T) (key : KeyBuffer) (entry : ℕ) : Prop :=
  (s.map.heap entry).key = keyBytes s.map.keySize key

end State

open State

variable {T : Type} [DecidableEq T]

/-- The steps of calls with keys from some buffers. An unconditional request for a cell does not
fail; with `mayFail` it may. A visitor may end its iteration. -/
inductive Step (buffers : Set KeyBuffer) (mayFail : Prop) : State T → State T → Prop
  | put {s : State T} (t : T) (key : KeyBuffer) (value : Option ℕ)
      (hidle : s.threads t = .idle) (hkey : key ∈ buffers) :
      Step buffers mayFail s (s.goto t (.putFind key value (s.head key) (s.head key)))
  | putNext {s : State T} {t : T} {key : KeyBuffer} {value chain : Option ℕ} {entry : ℕ}
      (ht : s.threads t = .putFind key value chain (some entry)) (hne : ¬s.Matches key entry) :
      Step buffers mayFail s (s.goto t (.putFind key value chain (s.map.next entry)))
  | putExists {s : State T} {t : T} {key : KeyBuffer} {value chain : Option ℕ} {entry : ℕ}
      (ht : s.threads t = .putFind key value chain (some entry)) (heq : s.Matches key entry) :
      Step buffers mayFail s ((s.goto t .idle).record (.put key value 1))
  | putMake {s : State T} {t : T} {key : KeyBuffer} {value chain : Option ℕ} (newEntry : ℕ)
      (ht : s.threads t = .putFind key value chain none)
      (hcell : s.map.entryCellpool newEntry = false) :
      Step buffers mayFail s
        ((s.withMap ((s.map.makeEntry newEntry key value).setNext newEntry chain)).goto t
          (.putSwap key value chain newEntry))
  | putNoCell {s : State T} {t : T} {key : KeyBuffer} {value chain : Option ℕ}
      (ht : s.threads t = .putFind key value chain none) (hfail : mayFail) :
      Step buffers mayFail s ((s.goto t .idle).record (.put key value (-1)))
  | swap {s : State T} {t : T} {key : KeyBuffer} {value chain : Option ℕ} {newEntry : ℕ}
      (ht : s.threads t = .putSwap key value chain newEntry) (heq : s.head key = chain) :
      Step buffers mayFail s
        (((s.withMap (s.map.setBucket (bucketID s.map.keySize key) newEntry)).goto t .idle).record
          (.put key value 0))
  | swapFails {s : State T} {t : T} {key : KeyBuffer} {value chain : Option ℕ} {newEntry : ℕ}
      (ht : s.threads t = .putSwap key value chain newEntry) (hne : s.head key ≠ chain) :
      Step buffers mayFail s
        (s.goto t (.putFindAgain key value (s.head key) (s.head key) newEntry))
  | againNext {s : State T} {t : T} {key : KeyBuffer} {value chain : Option ℕ} {entry newEntry : ℕ}
      (ht : s.threads t = .putFindAgain key value chain (some entry) newEntry)
      (hne : ¬s.Matches key entry) :
      Step buffers mayFail s (s.goto t (.putFindAgain key value chain (s.map.next entry) newEntry))
  | againExists {s : State T} {t : T} {key : KeyBuffer} {value chain : Option ℕ}
      {entry newEntry : ℕ} (ht : s.threads t = .putFindAgain key value chain (some entry) newEntry)
      (heq : s.Matches key entry) :
      Step buffers mayFail s
        (((s.withMap (s.map.removeEntry newEntry)).goto t .idle).record (.put key value 1))
  | againMissing {s : State T} {t : T} {key : KeyBuffer} {value chain : Option ℕ} {newEntry : ℕ}
      (ht : s.threads t = .putFindAgain key value chain none newEntry) :
      Step buffers mayFail s ((s.withMap (s.map.setNext newEntry chain)).goto t
        (.putSwap key value chain newEntry))
  | get {s : State T} (t : T) (key : KeyBuffer) (hidle : s.threads t = .idle)
      (hkey : key ∈ buffers) : Step buffers mayFail s (s.goto t (.getFind key (s.head key)))
  | getNext {s : State T} {t : T} {key : KeyBuffer} {entry : ℕ}
      (ht : s.threads t = .getFind key (some entry)) (hne : ¬s.Matches key entry) :
      Step buffers mayFail s (s.goto t (.getFind key (s.map.next entry)))
  | getFound {s : State T} {t : T} {key : KeyBuffer} {entry : ℕ}
      (ht : s.threads t = .getFind key (some entry)) (heq : s.Matches key entry) :
      Step buffers mayFail s ((s.goto t .idle).record (.getHandle key (some entry)))
  | getMissing {s : State T} {t : T} {key : KeyBuffer} (ht : s.threads t = .getFind key none) :
      Step buffers mayFail s ((s.goto t .idle).record (.getHandle key none))
  | iterate {s : State T} (t : T) (hidle : s.threads t = .idle) :
      Step buffers mayFail s (s.goto t (.iterate 0 (s.map.buckets 0)))
  | iterateNext {s : State T} {t : T} {id entry : ℕ} (ht : s.threads t = .iterate id (some entry)) :
      Step buffers mayFail s ((s.goto t (.iterate id (s.map.next entry))).record (.visit entry))
  | iterateStop {s : State T} {t : T} {id entry : ℕ} (ht : s.threads t = .iterate id (some entry)) :
      Step buffers mayFail s ((s.goto t .idle).record (.visit entry))
  | iterateBucket {s : State T} {t : T} {id : ℕ} (ht : s.threads t = .iterate id none)
      (hid : id + 1 < CM_MAP_BUCKET_COUNT) :
      Step buffers mayFail s (s.goto t (.iterate (id + 1) (s.map.buckets (id + 1))))
  | iterateEnd {s : State T} {t : T} {id : ℕ} (ht : s.threads t = .iterate id none)
      (hid : ¬id + 1 < CM_MAP_BUCKET_COUNT) : Step buffers mayFail s (s.goto t .idle)

/-- The threads begin with a new map and no calls. -/
def State.initial (map : CrossMemoryMap) : State T where
  map := map
  threads := fun _ => .idle
  log := []

def Run (buffers : Set KeyBuffer) (mayFail : Prop) : State T → State T → Prop :=
  Relation.ReflTransGen (Step buffers mayFail)

/-- An entry on the way along a chain. -/
inductive Reaches (map : CrossMemoryMap) : Option ℕ → ℕ → Prop
  | head (entry : ℕ) : Reaches map (some entry) entry
  | next {entry other : ℕ} (h : Reaches map (map.next entry) other) :
      Reaches map (some entry) other

/-- An entry that is in the map: reached from one of its buckets. -/
def Published (map : CrossMemoryMap) (entry : ℕ) : Prop :=
  ∃ id < CM_MAP_BUCKET_COUNT, Reaches map (map.buckets id) entry

end CrossMemoryMap
end ZoweCommon
