import ZoweCommon.CrossMemory.Map

/-! The chains of the map, and when a lookup depends on the key only. -/
namespace ZoweCommon
namespace CrossMemoryMap

open Linked

variable {map : CrossMemoryMap} {chains : ℕ → List ℕ}

/-! The chains -/

/-- The entries of every bucket, in order. Those of a bucket have different keys. -/
structure Chained (map : CrossMemoryMap) (chains : ℕ → List ℕ) : Prop where
  chain : ∀ id, Chain map.next (map.buckets id) (chains id)
  held : ∀ id, ∀ entry ∈ chains id, map.entryCellpool entry = true
  keys : ∀ id, ((chains id).map fun entry => (map.heap entry).key).Nodup

/-- An entry with the key, in the bucket that is searched for it. -/
def Holds (map : CrossMemoryMap) (chains : ℕ → List ℕ) (key : KeyBuffer) (entry : ℕ) : Prop :=
  entry ∈ chains (bucketID map.keySize key) ∧ (map.heap entry).key = keyBytes map.keySize key

theorem Chained.made {heap : ℕ → CrossMemoryMapEntry} {keySize : ℕ}
    (h : makeCrossMemoryMap heap keySize = some map) :
    map.Chained (fun _ => []) ∧ map.keySize = keySize := by
  unfold makeCrossMemoryMap at h
  split_ifs at h
  cases h
  constructor
  · constructor
    · exact fun _ => rfl
    · exact fun _ entry hentry => absurd hentry List.not_mem_nil
    · exact fun _ => List.nodup_nil
  · rfl

/-- A cell is free if the pool has not handed it out, or if it is in no chain. -/
theorem Chained.notMem_of_free (h : map.Chained chains) {entry : ℕ}
    (hfree : map.entryCellpool entry = false) (id : ℕ) : entry ∉ chains id := by
  intro hmem
  rw [h.held id entry hmem] at hfree
  exact absurd hfree (by decide)

/-- Only the cells in chains matter. -/
theorem Chained.congr {map' : CrossMemoryMap} (h : map.Chained chains)
    (hbuckets : map'.buckets = map.buckets)
    (hheap : ∀ id, ∀ entry ∈ chains id, map'.heap entry = map.heap entry)
    (hpool : ∀ id, ∀ entry ∈ chains id, map'.entryCellpool entry = true) :
    map'.Chained chains := by
  constructor
  · intro id
    rw [hbuckets]
    apply (h.chain id).congr
    intro entry hentry
    unfold next
    rw [hheap id entry hentry]
  · exact hpool
  · intro id
    have hkeys : ((chains id).map fun entry => (map'.heap entry).key) =
        (chains id).map fun entry => (map.heap entry).key := by
      apply List.map_congr_left
      intro entry hentry
      rw [hheap id entry hentry]
    rw [hkeys]
    exact h.keys id

theorem heap_makeEntry_of_ne {entry other : ℕ} (h : other ≠ entry) (key : KeyBuffer)
    (value : Option ℕ) : (map.makeEntry entry key value).heap other = map.heap other :=
  Function.update_of_ne h _ _

theorem heap_setNext_of_ne {entry other : ℕ} (h : other ≠ entry) (chain : Option ℕ) :
    (map.setNext entry chain).heap other = map.heap other :=
  Function.update_of_ne h _ _

theorem Chained.makeEntry (h : map.Chained chains) {entry : ℕ} (hout : ∀ id, entry ∉ chains id)
    (key : KeyBuffer) (value : Option ℕ) : (map.makeEntry entry key value).Chained chains := by
  apply h.congr
  · rfl
  · intro id other hother
    exact heap_makeEntry_of_ne (ne_of_mem_of_not_mem hother (hout id)) key value
  · intro id other hother
    have hne := ne_of_mem_of_not_mem hother (hout id)
    exact (Function.update_of_ne hne _ _).trans (h.held id other hother)

theorem Chained.setNext (h : map.Chained chains) {entry : ℕ} (hout : ∀ id, entry ∉ chains id)
    (chain : Option ℕ) : (map.setNext entry chain).Chained chains := by
  apply h.congr
  · rfl
  · intro id other hother
    exact heap_setNext_of_ne (ne_of_mem_of_not_mem hother (hout id)) chain
  · exact h.held

theorem Chained.removeEntry (h : map.Chained chains) {entry : ℕ} (hout : ∀ id, entry ∉ chains id) :
    (map.removeEntry entry).Chained chains := by
  apply h.congr
  · rfl
  · exact fun _ _ _ => rfl
  · intro id other hother
    have hne := ne_of_mem_of_not_mem hother (hout id)
    exact (Function.update_of_ne hne _ _).trans (h.held id other hother)

/-- An entry that points to the head of a chain becomes its head. -/
theorem Chained.setBucket (h : map.Chained chains) {entry id : ℕ} (hout : ∀ id, entry ∉ chains id)
    (hnext : map.next entry = map.buckets id) (hheld : map.entryCellpool entry = true)
    (hkey : ∀ other ∈ chains id, (map.heap other).key ≠ (map.heap entry).key) :
    (map.setBucket id entry).Chained (Function.update chains id (entry :: chains id)) := by
  constructor
  · intro id'
    show Chain map.next (Function.update map.buckets id (some entry) id') _
    by_cases hid : id' = id
    · rw [hid, Function.update_self, Function.update_self]
      constructor
      · rfl
      · rw [hnext]
        exact h.chain id
    · rw [Function.update_of_ne hid, Function.update_of_ne hid]
      exact h.chain id'
  · intro id' other hother
    by_cases hid : id' = id
    · rw [hid, Function.update_self] at hother
      rcases List.mem_cons.mp hother with rfl | hother
      · exact hheld
      · exact h.held id other hother
    · rw [Function.update_of_ne hid] at hother
      exact h.held id' other hother
  · intro id'
    by_cases hid : id' = id
    · rw [hid, Function.update_self, List.map_cons, List.nodup_cons]
      refine ⟨?_, h.keys id⟩
      intro hmem
      obtain ⟨other, hother, heq⟩ := List.mem_map.mp hmem
      exact hkey other hother heq
    · rw [Function.update_of_ne hid]
      exact h.keys id'

/-- Entries of one bucket with one key are the same. -/
theorem Chained.entry_unique (h : map.Chained chains) {id a b : ℕ} (ha : a ∈ chains id)
    (hb : b ∈ chains id) (hkey : (map.heap a).key = (map.heap b).key) : a = b :=
  List.inj_on_of_nodup_map (h.keys id) ha hb hkey

/-! Searching -/

theorem findEntry_ok {key : KeyBuffer} {fuel : ℕ} {p : Option ℕ} {entries : List ℕ}
    (hchain : Chain map.next p entries) (hfuel : entries.length ≤ fuel) :
    map.findEntry key fuel p =
      .ok (entries.find? fun entry => (map.heap entry).key = keyBytes map.keySize key) := by
  induction entries generalizing p fuel with
  | nil =>
    rw [chain_nil.mp hchain, findEntry]
    rfl
  | cons entry entries ih =>
    obtain ⟨rfl, hrest⟩ := hchain
    obtain ⟨fuel, rfl⟩ : ∃ n, fuel = n + 1 := ⟨fuel - 1, by rw [List.length_cons] at hfuel; omega⟩
    rw [List.length_cons] at hfuel
    rw [findEntry, List.find?_cons]
    by_cases hkey : (map.heap entry).key = keyBytes map.keySize key
    · rw [if_pos hkey, decide_eq_true hkey]
      rfl
    · rw [if_neg hkey, decide_eq_false hkey]
      exact ih hrest (by omega)

theorem Chained.findEntry_bucket (h : map.Chained chains) (key : KeyBuffer) {fuel : ℕ}
    (hfuel : ∀ id, (chains id).length ≤ fuel) :
    (∃ entry, map.Holds chains key entry ∧
      map.findEntry key fuel (map.buckets (bucketID map.keySize key)) = .ok (some entry)) ∨
    (∀ entry, ¬map.Holds chains key entry) ∧
      map.findEntry key fuel (map.buckets (bucketID map.keySize key)) = .ok none := by
  have hfind : map.findEntry key fuel (map.buckets (bucketID map.keySize key)) = .ok _ :=
    findEntry_ok (h.chain (bucketID map.keySize key)) (hfuel _)
  cases hentry : (chains (bucketID map.keySize key)).find?
      fun entry => (map.heap entry).key = keyBytes map.keySize key with
  | some entry =>
    left
    have hkey := List.find?_some hentry
    rw [hentry] at hfind
    exact ⟨entry, ⟨List.mem_of_find?_eq_some hentry, by simpa using hkey⟩, hfind⟩
  | none =>
    right
    have hnone := List.find?_eq_none.mp hentry
    rw [hentry] at hfind
    refine ⟨?_, hfind⟩
    intro entry hholds
    exact hnone entry hholds.1 (by simpa using hholds.2)

/-! One put -/

/-- The pool gives out no cell twice. -/
def LawfulPool (cmCellPoolGet : (ℕ → Bool) → Option ℕ) : Prop :=
  ∀ used entry, cmCellPoolGet used = some entry → used entry = false

theorem Chained.newEntry (h : map.Chained chains) {entry : ℕ} (hfree : map.entryCellpool entry = false)
    (key : KeyBuffer) (value chain : Option ℕ) :
    ((map.makeEntry entry key value).setNext entry chain).Chained chains ∧
      ((map.makeEntry entry key value).setNext entry chain).heap entry =
        { next := chain, value := value, key := keyBytes map.keySize key } ∧
      ((map.makeEntry entry key value).setNext entry chain).entryCellpool entry = true := by
  have hout := h.notMem_of_free hfree
  refine ⟨(h.makeEntry hout key value).setNext hout chain, ?_, Function.update_self _ _ _⟩
  show Function.update _ entry _ entry = _
  rw [Function.update_self]
  show CrossMemoryMapEntry.mk chain (Function.update map.heap entry _ entry).value
    (Function.update map.heap entry _ entry).key = _
  rw [Function.update_self]

section

variable {cmCellPoolGet : (ℕ → Bool) → Option ℕ} {fuel : ℕ} {key : KeyBuffer} {value : Option ℕ}

theorem crossMemoryMapPut_of_found {entry : ℕ}
    (hfind : map.findEntry key fuel (map.buckets (bucketID map.keySize key)) = .ok (some entry)) :
    map.crossMemoryMapPut cmCellPoolGet fuel key value = .ok (map, 1) := by
  unfold crossMemoryMapPut
  dsimp only
  rw [hfind]
  rfl

theorem crossMemoryMapPut_of_missing
    (hfind : map.findEntry key fuel (map.buckets (bucketID map.keySize key)) = .ok none) :
    map.crossMemoryMapPut cmCellPoolGet fuel key value =
      match cmCellPoolGet map.entryCellpool with
      | none => .ok (map, -1)
      | some entry =>
        ((map.makeEntry entry key value).setNext entry
          (map.buckets (bucketID map.keySize key))).swapIn key entry (fuel + 1)
          (map.buckets (bucketID map.keySize key)) := by
  unfold crossMemoryMapPut
  dsimp only
  rw [hfind]
  cases cmCellPoolGet map.entryCellpool with
  | none => rfl
  | some entry => rfl

theorem Chained.crossMemoryMapPut (h : map.Chained chains) (hpool : LawfulPool cmCellPoolGet)
    (hfuel : ∀ id, (chains id).length ≤ fuel) (key : KeyBuffer) (value : Option ℕ) :
    (∃ entry, map.Holds chains key entry ∧
      map.crossMemoryMapPut cmCellPoolGet fuel key value = .ok (map, 1)) ∨
    (cmCellPoolGet map.entryCellpool = none ∧
      map.crossMemoryMapPut cmCellPoolGet fuel key value = .ok (map, -1)) ∨
    ∃ map' entry, map.crossMemoryMapPut cmCellPoolGet fuel key value = .ok (map', 0) ∧
      map'.keySize = map.keySize ∧
      map'.Chained (Function.update chains (bucketID map.keySize key)
        (entry :: chains (bucketID map.keySize key))) ∧
      (map'.heap entry).key = keyBytes map.keySize key ∧ (map'.heap entry).value = value ∧
      ∀ id, ∀ other ∈ chains id, map'.heap other = map.heap other := by
  rcases h.findEntry_bucket key hfuel with ⟨entry, hholds, hfind⟩ | ⟨hnone, hfind⟩
  · exact .inl ⟨entry, hholds, crossMemoryMapPut_of_found hfind⟩
  right
  have hput : map.crossMemoryMapPut cmCellPoolGet fuel key value = _ :=
    crossMemoryMapPut_of_missing hfind
  cases hcell : cmCellPoolGet map.entryCellpool with
  | none =>
    left
    rw [hput, hcell]
    exact ⟨rfl, rfl⟩
  | some entry =>
    right
    have hfree := hpool _ _ hcell
    have hout := h.notMem_of_free hfree
    obtain ⟨hchained, hheap, hheld⟩ :=
      h.newEntry hfree key value (map.buckets (bucketID map.keySize key))
    rw [hcell] at hput
    dsimp only at hput
    obtain ⟨fresh, hfresh⟩ : ∃ fresh, fresh = (map.makeEntry entry key value).setNext entry
      (map.buckets (bucketID map.keySize key)) := ⟨_, rfl⟩
    rw [← hfresh] at hchained hheap hheld hput
    have hsame : ∀ id, ∀ other ∈ chains id, fresh.heap other = map.heap other := by
      intro id other hother
      have hne := ne_of_mem_of_not_mem hother (hout id)
      rw [hfresh, heap_setNext_of_ne hne, heap_makeEntry_of_ne hne]
    have hsize : fresh.keySize = map.keySize := by
      rw [hfresh]
      rfl
    have hbuckets : fresh.buckets = map.buckets := by
      rw [hfresh]
      rfl
    have hnext : fresh.next entry = fresh.buckets (bucketID map.keySize key) := by
      unfold CrossMemoryMap.next
      rw [hheap, hbuckets]
    have hkey : ∀ other ∈ chains (bucketID map.keySize key),
        (fresh.heap other).key ≠ (fresh.heap entry).key := by
      intro other hother heq
      rw [hsame _ other hother, hheap] at heq
      exact hnone other ⟨hother, heq⟩
    refine ⟨fresh.setBucket (bucketID map.keySize key) entry, entry, ?_, hsize,
      hchained.setBucket hout hnext hheld hkey, ?_, ?_, hsame⟩
    · rw [hput, swapIn, hsize, hbuckets]
      exact if_pos rfl
    · show (fresh.heap entry).key = _
      rw [hheap]
    · show (fresh.heap entry).value = _
      rw [hheap]

/-! Sequences of puts -/

/-- The entries stay where they are. -/
structure Extends (map : CrossMemoryMap) (chains : ℕ → List ℕ) (map' : CrossMemoryMap)
    (chains' : ℕ → List ℕ) : Prop where
  keySize : map'.keySize = map.keySize
  mem : ∀ id, ∀ entry ∈ chains id, entry ∈ chains' id
  heap : ∀ id, ∀ entry ∈ chains id, map'.heap entry = map.heap entry

theorem Extends.refl (map : CrossMemoryMap) (chains : ℕ → List ℕ) : Extends map chains map chains :=
  ⟨rfl, fun _ _ h => h, fun _ _ _ => rfl⟩

theorem Extends.trans {map₁ map₂ map₃ : CrossMemoryMap} {chains₁ chains₂ chains₃ : ℕ → List ℕ}
    (h : Extends map₁ chains₁ map₂ chains₂) (h' : Extends map₂ chains₂ map₃ chains₃) :
    Extends map₁ chains₁ map₃ chains₃ := by
  constructor
  · exact h'.keySize.trans h.keySize
  · exact fun id entry hentry => h'.mem id entry (h.mem id entry hentry)
  · intro id entry hentry
    exact (h'.heap id entry (h.mem id entry hentry)).trans (h.heap id entry hentry)

def Stores (map : CrossMemoryMap) (chains : ℕ → List ℕ) (key : KeyBuffer) (value : Option ℕ) : Prop :=
  ∃ entry, map.Holds chains key entry ∧ (map.heap entry).value = value

theorem Extends.stores {map' : CrossMemoryMap} {chains' : ℕ → List ℕ}
    (h : Extends map chains map' chains') (hstores : map.Stores chains key value) :
    map'.Stores chains' key value := by
  obtain ⟨entry, ⟨hmem, hkey⟩, hvalue⟩ := hstores
  refine ⟨entry, ⟨?_, ?_⟩, ?_⟩
  · rw [h.keySize]
    exact h.mem _ entry hmem
  · rw [h.heap _ entry hmem, h.keySize]
    exact hkey
  · rw [h.heap _ entry hmem]
    exact hvalue

theorem length_update_le {n id₀ entry : ℕ} (h : ∀ id, (chains id).length ≤ n) (id : ℕ) :
    (Function.update chains id₀ (entry :: chains id₀) id).length ≤ n + 1 := by
  by_cases hid : id = id₀
  · rw [hid, Function.update_self, List.length_cons]
    have hle := h id₀
    omega
  · rw [Function.update_of_ne hid]
    exact (h id).trans (Nat.le_succ n)

theorem Chained.put_step (h : map.Chained chains) (hpool : LawfulPool cmCellPoolGet) {n : ℕ}
    (hlength : ∀ id, (chains id).length ≤ n) (hfuel : n ≤ fuel) (key : KeyBuffer)
    (value : Option ℕ) : ∃ map' chains' result,
      map.crossMemoryMapPut cmCellPoolGet fuel key value = .ok (map', result) ∧
      map'.Chained chains' ∧ (∀ id, (chains' id).length ≤ n + 1) ∧ Extends map chains map' chains' ∧
      (result = 0 → map'.Stores chains' key value) := by
  have hfuel' : ∀ id, (chains id).length ≤ fuel := fun id => (hlength id).trans hfuel
  have hgrow : ∀ id, (chains id).length ≤ n + 1 := fun id => (hlength id).trans (Nat.le_succ n)
  rcases h.crossMemoryMapPut hpool hfuel' key value with
    ⟨entry, -, hrun⟩ | ⟨-, hrun⟩ | ⟨map', entry, hrun, hsize, hchained, hkey, hvalue, hheap⟩
  · exact ⟨map, chains, 1, hrun, h, hgrow, .refl map chains, fun h => absurd h (by decide)⟩
  · exact ⟨map, chains, -1, hrun, h, hgrow, .refl map chains, fun h => absurd h (by decide)⟩
  · refine ⟨map', _, 0, hrun, hchained, length_update_le hlength, ⟨hsize, ?_, hheap⟩, ?_⟩
    · intro id other hother
      by_cases hid : id = bucketID map.keySize key
      · rw [hid] at hother ⊢
        rw [Function.update_self]
        exact List.mem_cons_of_mem _ hother
      · rwa [Function.update_of_ne hid]
    · intro _
      refine ⟨entry, ⟨?_, ?_⟩, hvalue⟩
      · rw [hsize, Function.update_self]
        exact List.mem_cons_self
      · rw [hsize]
        exact hkey

theorem Chained.putAll (puts : List (KeyBuffer × Option ℕ)) (hpool : LawfulPool cmCellPoolGet) :
    ∀ {map : CrossMemoryMap} {chains : ℕ → List ℕ} {n : ℕ}, map.Chained chains →
      (∀ id, (chains id).length ≤ n) → n + puts.length ≤ fuel →
      ∃ map' chains' results, map.putAll cmCellPoolGet fuel puts = .ok (map', results) ∧
        map'.Chained chains' ∧ (∀ id, (chains' id).length ≤ fuel) ∧ Extends map chains map' chains' ∧
        List.Forall₂ (fun put result => result = 0 → map'.Stores chains' put.1 put.2) puts results := by
  induction puts with
  | nil =>
    intro map chains n h hlength hfuel
    rw [List.length_nil] at hfuel
    exact ⟨map, chains, [], rfl, h, fun id => (hlength id).trans hfuel, .refl map chains, .nil⟩
  | cons put puts ih =>
    intro map chains n h hlength hfuel
    rw [List.length_cons] at hfuel
    obtain ⟨map₁, chains₁, result, hrun, h₁, hlength₁, hextends, hstored⟩ :=
      h.put_step hpool hlength (show n ≤ fuel by omega) put.1 put.2
    obtain ⟨map₂, chains₂, results, hrest, h₂, hlength₂, hextends₂, hall⟩ :=
      ih h₁ hlength₁ (show n + 1 + puts.length ≤ fuel by omega)
    refine ⟨map₂, chains₂, result :: results, ?_, h₂, hlength₂, hextends.trans hextends₂, ?_⟩
    · unfold CrossMemoryMap.putAll
      rw [hrun, Exec.ok_bind]
      dsimp only
      rw [hrest]
      rfl
    · exact .cons (fun hzero => hextends₂.stores (hstored hzero)) hall

end

theorem Chained.lookup (h : map.Chained chains) {fuel : ℕ} (hfuel : ∀ id, (chains id).length ≤ fuel)
    {key key' : KeyBuffer} {value : Option ℕ} (hstores : map.Stores chains key value)
    (hbytes : keyBytes map.keySize key' = keyBytes map.keySize key)
    (hbucket : bucketID map.keySize key' = bucketID map.keySize key) :
    map.crossMemoryMapGet fuel key' = .ok value ∧ ∀ cmCellPoolGet value',
      map.crossMemoryMapPut cmCellPoolGet fuel key' value' = .ok (map, 1) := by
  obtain ⟨entry, ⟨hmem, hkey⟩, hvalue⟩ := hstores
  rcases h.findEntry_bucket key' hfuel with ⟨found, ⟨hfound, hfoundkey⟩, hfind⟩ | ⟨hnone, -⟩
  · rw [hbucket] at hfound
    have hsame : found = entry := by
      apply h.entry_unique hfound hmem
      rw [hfoundkey, hkey, hbytes]
    constructor
    · unfold crossMemoryMapGet crossMemoryMapGetHandle
      rw [hfind, hsame, ← hvalue]
      rfl
    · exact fun _ _ => crossMemoryMapPut_of_found hfind
  · refine absurd ?_ (hnone entry)
    unfold Holds
    rw [hbucket, hbytes]
    exact ⟨hmem, hkey⟩

/-- Among these buffers, those with the same key are looked for in the same bucket. -/
def Coherent (keySize : ℕ) (buffers : Set KeyBuffer) : Prop :=
  ∀ key ∈ buffers, ∀ key' ∈ buffers, keyBytes keySize key' = keyBytes keySize key →
    bucketID keySize key' = bucketID keySize key

/-- After any puts, a buffer with the key of a successful one finds its value, and is not put. -/
def LookupLaw (keySize : ℕ) (buffers : Set KeyBuffer) : Prop :=
  ∀ (heap : ℕ → CrossMemoryMapEntry) (cmCellPoolGet : (ℕ → Bool) → Option ℕ) (map : CrossMemoryMap)
    (puts : List (KeyBuffer × Option ℕ)) (fuel : ℕ), LawfulPool cmCellPoolGet →
    makeCrossMemoryMap heap keySize = some map → (∀ put ∈ puts, put.1 ∈ buffers) →
    puts.length ≤ fuel → ∃ map' results,
      map.putAll cmCellPoolGet fuel puts = .ok (map', results) ∧ results.length = puts.length ∧
      ∀ key value, ((key, value), 0) ∈ puts.zip results → ∀ key' ∈ buffers,
        keyBytes keySize key' = keyBytes keySize key →
        map'.crossMemoryMapGet fuel key' = .ok value ∧
          ∀ value', map'.crossMemoryMapPut cmCellPoolGet fuel key' value' = .ok (map', 1)

theorem lookupLaw_of_coherent {keySize : ℕ} {buffers : Set KeyBuffer}
    (hcoherent : Coherent keySize buffers) : LookupLaw keySize buffers := by
  intro heap cmCellPoolGet map puts fuel hpool hmade hputs hfuel
  obtain ⟨hnew, hsize⟩ := Chained.made hmade
  obtain ⟨map', chains', results, hrun, h, hlength, hextends, hall⟩ :=
    Chained.putAll puts hpool hnew (n := 0) (fun _ => Nat.le_refl 0) ((Nat.zero_add _).trans_le hfuel)
  have hsize' : map'.keySize = keySize := hextends.keySize.trans hsize
  refine ⟨map', results, hrun, hall.length_eq.symm, ?_⟩
  intro key value hmem key' hkey' hbytes
  have hstores := (List.forall₂_iff_zip.mp hall).2 hmem rfl
  have hkey := hputs _ (List.of_mem_zip hmem).1
  have hbucket := hcoherent key hkey key' hkey' hbytes
  rw [← hsize'] at hbytes hbucket
  obtain ⟨hget, hput⟩ := h.lookup hlength hstores hbytes hbucket
  exact ⟨hget, hput cmCellPoolGet⟩

def onePool (used : ℕ → Bool) : Option ℕ := if used 0 then none else some 0

theorem onePool_lawful : LawfulPool onePool := by
  intro used entry h
  unfold onePool at h
  split_ifs at h with hused
  cases h
  simpa using hused

/-- A key that is looked for in another bucket than it was put in is not found. -/
theorem coherent_of_lookupLaw {keySize : ℕ} (hsize : keySize ≤ CM_MAP_MAX_KEY_SIZE)
    {buffers : Set KeyBuffer} (hlaw : LookupLaw keySize buffers) : Coherent keySize buffers := by
  intro key hkey key' hkey' hbytes
  by_contra hbucket
  obtain ⟨map, hmade⟩ : ∃ map, makeCrossMemoryMap (fun _ => ⟨none, none, []⟩) keySize = some map := by
    unfold makeCrossMemoryMap
    rw [if_neg (by omega)]
    exact ⟨_, rfl⟩
  obtain ⟨hnew, hkeySize⟩ := Chained.made hmade
  have hempty : ∀ id, ((fun _ => [] : ℕ → List ℕ) id).length ≤ 1 := fun _ => Nat.zero_le 1
  have hpool : map.entryCellpool = fun _ => false := by
    unfold makeCrossMemoryMap at hmade
    rw [if_neg (by omega)] at hmade
    cases hmade
    rfl
  -- the put takes the only cell
  rcases hnew.crossMemoryMapPut onePool_lawful hempty key (some 0) with
    ⟨entry, ⟨hmem, -⟩, -⟩ | ⟨hcell, -⟩ | ⟨map₁, entry, hrun, hsize₁, hchained, -⟩
  · exact absurd hmem List.not_mem_nil
  · rw [hpool] at hcell
    exact absurd hcell (by decide)
  obtain ⟨map', results, hall, -, hlookup⟩ := hlaw _ onePool map [(key, some 0)] 1 onePool_lawful hmade
    (fun put hput => by rwa [List.mem_singleton.mp hput]) (Nat.le_refl 1)
  unfold CrossMemoryMap.putAll at hall
  rw [hrun, Exec.ok_bind] at hall
  dsimp only at hall
  unfold CrossMemoryMap.putAll at hall
  injection hall with hpair
  obtain ⟨rfl, rfl⟩ := Prod.mk.inj hpair
  obtain ⟨hget, -⟩ := hlookup key (some 0) (by simp) key' hkey' hbytes
  -- but the other bucket is still empty
  have hne : bucketID map₁.keySize key' ≠ bucketID map.keySize key := by
    rw [hsize₁, hkeySize]
    exact hbucket
  have hchain := hchained.chain (bucketID map₁.keySize key')
  rw [Function.update_of_ne hne] at hchain
  have hfind : map₁.findEntry key' 1 (map₁.buckets (bucketID map₁.keySize key')) = .ok none :=
    findEntry_ok hchain (Nat.zero_le 1)
  unfold crossMemoryMapGet crossMemoryMapGetHandle at hget
  rw [hfind] at hget
  injection hget with hvalue
  exact absurd hvalue (by simp)

/-! The hash -/

/-- A hash over whole words takes in nothing behind the key. -/
theorem calculateKeyHash_congr {keySize : ℕ} (hwords : keySize % 4 = 0) {key key' : KeyBuffer}
    (h : keyBytes keySize key' = keyBytes keySize key) :
    calculateKeyHash key' keySize = calculateKeyHash key keySize := by
  have hbyte : ∀ i < keySize, key' i = key i := by
    intro i hi
    exact List.map_inj_left.mp h i (List.mem_range.mpr hi)
  have hword : ∀ i < (keySize + 3) / 4, word key' (4 * i) = word key (4 * i) := by
    intro i hi
    unfold word
    rw [hbyte (4 * i) (by omega), hbyte (4 * i + 1) (by omega), hbyte (4 * i + 2) (by omega),
      hbyte (4 * i + 3) (by omega)]
  unfold calculateKeyHash
  apply List.foldl_ext
  intro hash i hi
  rw [hword i (List.mem_range.mp hi)]

/-- Keys that are zero, with zeros or a one behind them. -/
theorem bucketID_ne : ∀ keySize ≤ 64, keySize % 4 ≠ 0 →
    bucketID keySize (fun i => if i = keySize then 1 else 0) ≠ bucketID keySize (fun _ => 0) := by
  decide +kernel

theorem coherent_univ_iff {keySize : ℕ} (hsize : keySize ≤ CM_MAP_MAX_KEY_SIZE) :
    Coherent keySize Set.univ ↔ keySize % 4 = 0 := by
  constructor
  · intro h
    by_contra hwords
    have hbytes : keyBytes keySize (fun i => if i = keySize then 1 else 0) =
        keyBytes keySize (fun _ => 0) := by
      apply List.map_congr_left
      intro i hi
      have hlt := List.mem_range.mp hi
      exact if_neg (by omega)
    exact bucketID_ne keySize hsize hwords (h _ trivial _ trivial hbytes)
  · intro hwords key _ key' _ hbytes
    unfold bucketID
    rw [calculateKeyHash_congr hwords hbytes]

/-- Lookups depend on the keys just if those with the same key share a bucket; whatever follows the
keys, this is so just for a key of whole words. -/
theorem lookupLaw_iff {keySize : ℕ} (hsize : keySize ≤ CM_MAP_MAX_KEY_SIZE) :
    (∀ buffers, LookupLaw keySize buffers ↔ Coherent keySize buffers) ∧
      (LookupLaw keySize Set.univ ↔ keySize % 4 = 0) := by
  have hiff : ∀ buffers, LookupLaw keySize buffers ↔ Coherent keySize buffers := by
    intro buffers
    exact ⟨coherent_of_lookupLaw hsize, lookupLaw_of_coherent⟩
  refine ⟨hiff, ?_⟩
  rw [hiff, coherent_univ_iff hsize]

theorem lookupLaw_iff_twenty : LookupLaw 20 Set.univ :=
  (lookupLaw_iff (by decide)).2.mpr (by decide)

/-- A key of five bytes, put with zeros behind it, is not found with a one behind it. -/
theorem not_lookupLaw_five : ¬LookupLaw 5 Set.univ := by
  intro h
  have hcoherent := coherent_of_lookupLaw (by decide) h
  exact absurd ((coherent_univ_iff (by decide)).mp hcoherent) (by decide)

end CrossMemoryMap
end ZoweCommon
