import ZoweCommon.CrossMemory.MapLookup
import ZoweCommon.CrossMemory.MapThreads

/-! In any interleaving, no key is put twice and no entry is lost. -/
namespace ZoweCommon
namespace CrossMemoryMap

open Linked State

variable {T : Type} [DecidableEq T] {map map' : CrossMemoryMap} {chains chains' : ℕ → List ℕ}
  {buffers : Set KeyBuffer} {mayFail : Prop}

/-! What only grows -/

/-- Chains are extended at their heads, and the entries in them stay as they are. -/
structure Grows (map : CrossMemoryMap) (chains : ℕ → List ℕ) (map' : CrossMemoryMap)
    (chains' : ℕ → List ℕ) : Prop where
  keySize : map'.keySize = map.keySize
  suffix : ∀ id, chains id <:+ chains' id
  heap : ∀ id, ∀ entry ∈ chains id, map'.heap entry = map.heap entry

theorem Grows.refl (map : CrossMemoryMap) (chains : ℕ → List ℕ) : Grows map chains map chains :=
  ⟨rfl, fun _ => List.suffix_rfl, fun _ _ _ => rfl⟩

theorem Grows.trans {map₁ map₂ map₃ : CrossMemoryMap} {chains₁ chains₂ chains₃ : ℕ → List ℕ}
    (h : Grows map₁ chains₁ map₂ chains₂) (h' : Grows map₂ chains₂ map₃ chains₃) :
    Grows map₁ chains₁ map₃ chains₃ := by
  constructor
  · exact h'.keySize.trans h.keySize
  · exact fun id => (h.suffix id).trans (h'.suffix id)
  · intro id entry hentry
    exact (h'.heap id entry ((h.suffix id).subset hentry)).trans (h.heap id entry hentry)

theorem Grows.holds (h : Grows map chains map' chains') {key : KeyBuffer} {entry : ℕ}
    (hholds : map.Holds chains key entry) : map'.Holds chains' key entry := by
  obtain ⟨hmem, hkey⟩ := hholds
  constructor
  · rw [h.keySize]
    exact (h.suffix _).subset hmem
  · rw [h.heap _ entry hmem, h.keySize]
    exact hkey

theorem Grows.chain (h : Grows map chains map' chains') {p : Option ℕ} {entries : List ℕ} {id : ℕ}
    (hentries : entries <:+ chains id) (hchain : Chain map.next p entries) :
    Chain map'.next p entries := by
  apply hchain.congr
  intro entry hentry
  unfold CrossMemoryMap.next
  rw [h.heap id entry (hentries.subset hentry)]

/-! What a thread knows -/

def Rest (map : CrossMemoryMap) (chains : ℕ → List ℕ) (id : ℕ) (p : Option ℕ) : Prop :=
  ∃ entries, entries <:+ chains id ∧ Chain map.next p entries

/-- The chain that was read has been searched as far as `currEntry`, in vain. -/
def Searched (map : CrossMemoryMap) (chains : ℕ → List ℕ) (key : KeyBuffer)
    (chain currEntry : Option ℕ) : Prop :=
  ∃ passed rest, passed ++ rest <:+ chains (bucketID map.keySize key) ∧
    Chain map.next chain (passed ++ rest) ∧ Chain map.next currEntry rest ∧
    ∀ entry ∈ passed, (map.heap entry).key ≠ keyBytes map.keySize key

/-- A new entry that no other thread has seen. -/
structure Private (map : CrossMemoryMap) (chains : ℕ → List ℕ) (key : KeyBuffer) (value : Option ℕ)
    (entry : ℕ) : Prop where
  held : map.entryCellpool entry = true
  out : ∀ id, entry ∉ chains id
  key : (map.heap entry).key = keyBytes map.keySize key
  value : (map.heap entry).value = value

/-- What holds of the local variables of a thread. -/
def ThreadInv (buffers : Set KeyBuffer) (map : CrossMemoryMap) (chains : ℕ → List ℕ) :
    ThreadState → Prop
  | .idle => True
  | .putFind key _ chain currEntry => key ∈ buffers ∧ Searched map chains key chain currEntry
  | .putSwap key value chain newEntry => key ∈ buffers ∧ Searched map chains key chain none ∧
      Private map chains key value newEntry ∧ map.next newEntry = chain
  | .putFindAgain key value chain currEntry newEntry => key ∈ buffers ∧
      Searched map chains key chain currEntry ∧ Private map chains key value newEntry
  | .getFind key currEntry => key ∈ buffers ∧ Rest map chains (bucketID map.keySize key) currEntry
  | .iterate id entry => id < CM_MAP_BUCKET_COUNT ∧ Rest map chains id entry

/-- The cell that a thread keeps to itself. -/
def own : ThreadState → Option ℕ
  | .putSwap _ _ _ newEntry => some newEntry
  | .putFindAgain _ _ _ _ newEntry => some newEntry
  | _ => none

section Grows

variable (h : Grows map chains map' chains')

include h

theorem Grows.rest {id : ℕ} {p : Option ℕ} (hrest : Rest map chains id p) : Rest map' chains' id p := by
  obtain ⟨entries, hsuffix, hchain⟩ := hrest
  exact ⟨entries, hsuffix.trans (h.suffix id), h.chain hsuffix hchain⟩

theorem Grows.searched {key : KeyBuffer} {chain currEntry : Option ℕ}
    (hsearched : Searched map chains key chain currEntry) :
    Searched map' chains' key chain currEntry := by
  obtain ⟨passed, rest, hsuffix, hchain, hcurr, hne⟩ := hsearched
  have hrest : rest <:+ chains (bucketID map.keySize key) :=
    (List.suffix_append passed rest).trans hsuffix
  refine ⟨passed, rest, ?_, h.chain hsuffix hchain, h.chain hrest hcurr, ?_⟩
  · rw [h.keySize]
    exact hsuffix.trans (h.suffix _)
  · intro entry hentry
    rw [h.heap _ entry (hsuffix.subset (List.mem_append_left rest hentry)), h.keySize]
    exact hne entry hentry

/-- A thread's own cell is not touched by the others. -/
theorem Grows.threadInv {at' : ThreadState} (hinv : ThreadInv buffers map chains at')
    (hown : ∀ entry, own at' = some entry → map'.heap entry = map.heap entry ∧
      map'.entryCellpool entry = true ∧ ∀ id, entry ∉ chains' id) :
    ThreadInv buffers map' chains' at' := by
  have hprivate : ∀ {key value entry}, own at' = some entry → Private map chains key value entry →
      Private map' chains' key value entry := by
    intro key value entry hat hprivate
    obtain ⟨hheap, hheld, hout⟩ := hown entry hat
    refine ⟨hheld, hout, ?_, ?_⟩
    · rw [hheap, h.keySize]
      exact hprivate.key
    · rw [hheap]
      exact hprivate.value
  cases at' with
  | idle => trivial
  | putFind key value chain currEntry => exact ⟨hinv.1, h.searched hinv.2⟩
  | putSwap key value chain newEntry =>
    obtain ⟨hkey, hsearched, hcell, hnext⟩ := hinv
    refine ⟨hkey, h.searched hsearched, hprivate rfl hcell, ?_⟩
    unfold CrossMemoryMap.next
    rw [(hown newEntry rfl).1]
    exact hnext
  | putFindAgain key value chain currEntry newEntry =>
    obtain ⟨hkey, hsearched, hcell⟩ := hinv
    exact ⟨hkey, h.searched hsearched, hprivate rfl hcell⟩
  | getFind key currEntry =>
    refine ⟨hinv.1, ?_⟩
    rw [h.keySize]
    exact h.rest hinv.2
  | iterate id entry => exact ⟨hinv.1, h.rest hinv.2⟩

end Grows

/-! What was returned -/

/-- What holds of a call that has returned. -/
def EventInv (mayFail : Prop) (map : CrossMemoryMap) (chains : ℕ → List ℕ) : Event → Prop
  | .put key value result =>
    (result = 0 ∧ map.Stores chains key value) ∨
      (result = 1 ∧ ∃ entry, map.Holds chains key entry) ∨ result = -1 ∧ mayFail
  | .getHandle key handle => ∀ entry, handle = some entry → map.Holds chains key entry
  | .visit entry => ∃ id < CM_MAP_BUCKET_COUNT, entry ∈ chains id

theorem Grows.eventInv (h : Grows map chains map' chains') {event : Event}
    (hinv : EventInv mayFail map chains event) : EventInv mayFail map' chains' event := by
  cases event with
  | put key value result =>
    rcases hinv with ⟨hzero, entry, hholds, hvalue⟩ | ⟨hone, entry, hholds⟩ | hfail
    · refine .inl ⟨hzero, entry, h.holds hholds, ?_⟩
      rw [h.heap _ entry hholds.1]
      exact hvalue
    · exact .inr (.inl ⟨hone, entry, h.holds hholds⟩)
    · exact .inr (.inr hfail)
  | getHandle key handle => exact fun entry heq => h.holds (hinv entry heq)
  | visit entry =>
    obtain ⟨id, hid, hmem⟩ := hinv
    exact ⟨id, hid, (h.suffix id).subset hmem⟩

def isSuccess (keySize : ℕ) (bytes : List Byte) : Event → Bool
  | .put key _ result => keyBytes keySize key = bytes && result = 0
  | _ => false

def successes (keySize : ℕ) (bytes : List Byte) (log : List Event) : ℕ :=
  log.countP (isSuccess keySize bytes)

def HasKey (map : CrossMemoryMap) (chains : ℕ → List ℕ) (bytes : List Byte) : Prop :=
  ∃ id, ∃ entry ∈ chains id, (map.heap entry).key = bytes

/-! The invariant -/

structure Inv (buffers : Set KeyBuffer) (mayFail : Prop) (s : State T) (chains : ℕ → List ℕ) :
    Prop where
  chained : s.map.Chained chains
  place : ∀ id, ∀ entry ∈ chains id, ∃ key ∈ buffers,
    (s.map.heap entry).key = keyBytes s.map.keySize key ∧ bucketID s.map.keySize key = id
  threads : ∀ t, ThreadInv buffers s.map chains (s.threads t)
  owner : ∀ t t' entry, own (s.threads t) = some entry → own (s.threads t') = some entry → t = t'
  log : ∀ event ∈ s.log, EventInv mayFail s.map chains event
  present : ∀ bytes, HasKey s.map chains bytes → successes s.map.keySize bytes s.log = 1
  absent : ∀ bytes, ¬HasKey s.map chains bytes → successes s.map.keySize bytes s.log = 0

/-- What a thread keeps to itself is in no chain, and not free. -/
theorem ThreadInv.own {at' : ThreadState} (h : ThreadInv buffers map chains at') {entry : ℕ}
    (hown : own at' = some entry) :
    map.entryCellpool entry = true ∧ ∀ id, entry ∉ chains id := by
  cases at' with
  | putSwap key value chain newEntry =>
    cases hown
    exact ⟨h.2.2.1.held, h.2.2.1.out⟩
  | putFindAgain key value chain currEntry newEntry =>
    cases hown
    exact ⟨h.2.2.held, h.2.2.out⟩
  | _ => exact absurd hown (by simp [CrossMemoryMap.own])

namespace Inv

variable {s : State T}

/-- A thread goes on, with what it has or with a cell that is nobody's. -/
theorem goto (h : Inv buffers mayFail s chains) (t : T) (at' : ThreadState)
    (hat : ThreadInv buffers s.map chains at')
    (hown : ∀ entry, own at' = some entry → ∀ t', own (s.threads t') = some entry → t' = t) :
    Inv buffers mayFail (s.goto t at') chains := by
  have hthread : ∀ t', (s.goto t at').threads t' = if t' = t then at' else s.threads t' := by
    intro t'
    exact Function.update_apply s.threads t at' t'
  constructor
  · exact h.chained
  · exact h.place
  · intro t'
    rw [hthread t']
    split_ifs
    · exact hat
    · exact h.threads t'
  · intro t₁ t₂ entry h₁ h₂
    rw [hthread] at h₁ h₂
    split_ifs at h₁ h₂ with heq₁ heq₂ heq₂
    · rw [heq₁, heq₂]
    · rw [heq₁, hown entry h₁ t₂ h₂]
    · rw [heq₂, hown entry h₂ t₁ h₁]
    · exact h.owner t₁ t₂ entry h₁ h₂
  · exact h.log
  · exact h.present
  · exact h.absent

theorem idle (h : Inv buffers mayFail s chains) (t : T) :
    Inv buffers mayFail (s.goto t .idle) chains := by
  apply h.goto t .idle
  · trivial
  · exact fun entry hown => absurd hown (by simp [CrossMemoryMap.own])

/-- A thread that gives up its cell is the only one that had it. -/
theorem idle_own (h : Inv buffers mayFail s chains) {t : T} {entry : ℕ}
    (hown : own (s.threads t) = some entry) (t' : T) :
    own ((s.goto t .idle).threads t') ≠ some entry := by
  intro hown'
  have hthread : (s.goto t .idle).threads t' = if t' = t then .idle else s.threads t' :=
    Function.update_apply s.threads t .idle t'
  rw [hthread] at hown'
  split_ifs at hown' with heq
  · exact absurd hown' (by simp [CrossMemoryMap.own])
  · exact heq (h.owner t' t entry hown' hown)

omit [DecidableEq T] in
theorem record (h : Inv buffers mayFail s chains) (event : Event)
    (hevent : EventInv mayFail s.map chains event)
    (hno : ∀ bytes, isSuccess s.map.keySize bytes event = false) :
    Inv buffers mayFail (s.record event) chains := by
  have hcount : ∀ bytes, successes s.map.keySize bytes (event :: s.log) =
      successes s.map.keySize bytes s.log := by
    intro bytes
    exact List.countP_cons_of_neg (by simp [hno bytes])
  constructor
  · exact h.chained
  · exact h.place
  · exact h.threads
  · exact h.owner
  · exact List.forall_mem_cons.mpr ⟨hevent, h.log⟩
  · intro bytes hkey
    exact (hcount bytes).trans (h.present bytes hkey)
  · intro bytes hkey
    exact (hcount bytes).trans (h.absent bytes hkey)

omit [DecidableEq T] in
/-- Cells that are in no chain, and nobody's, may change. -/
theorem withMap (h : Inv buffers mayFail s chains) (hgrows : Grows s.map chains map chains)
    (hchained : map.Chained chains)
    (hown : ∀ t entry, own (s.threads t) = some entry →
      map.heap entry = s.map.heap entry ∧ map.entryCellpool entry = true) :
    Inv buffers mayFail (s.withMap map) chains := by
  have hkey : ∀ bytes, HasKey map chains bytes ↔ HasKey s.map chains bytes := by
    intro bytes
    constructor
    · rintro ⟨id, entry, hentry, hbytes⟩
      rw [hgrows.heap id entry hentry] at hbytes
      exact ⟨id, entry, hentry, hbytes⟩
    · rintro ⟨id, entry, hentry, hbytes⟩
      rw [← hgrows.heap id entry hentry] at hbytes
      exact ⟨id, entry, hentry, hbytes⟩
  constructor
  · exact hchained
  · intro id entry hentry
    obtain ⟨key, hmem, hbytes, hid⟩ := h.place id entry hentry
    refine ⟨key, hmem, ?_, ?_⟩
    · show (map.heap entry).key = keyBytes map.keySize key
      rw [hgrows.heap id entry hentry, hgrows.keySize]
      exact hbytes
    · show bucketID map.keySize key = id
      rw [hgrows.keySize]
      exact hid
  · intro t
    apply hgrows.threadInv (h.threads t)
    intro entry hat
    obtain ⟨hheap, hheld⟩ := hown t entry hat
    exact ⟨hheap, hheld, ((h.threads t).own hat).2⟩
  · exact h.owner
  · exact fun event hevent => hgrows.eventInv (h.log event hevent)
  · intro bytes hbytes
    show successes map.keySize bytes s.log = 1
    rw [hgrows.keySize]
    exact h.present bytes ((hkey bytes).mp hbytes)
  · intro bytes hbytes
    show successes map.keySize bytes s.log = 0
    rw [hgrows.keySize]
    exact h.absent bytes fun hhas => hbytes ((hkey bytes).mpr hhas)

omit [DecidableEq T] in
theorem holds_of_key (h : Inv buffers mayFail s chains)
    (hcoherent : Coherent s.map.keySize buffers) {key : KeyBuffer} (hkey : key ∈ buffers) {id entry : ℕ}
    (hentry : entry ∈ chains id) (hbytes : (s.map.heap entry).key = keyBytes s.map.keySize key) :
    s.map.Holds chains key entry := by
  obtain ⟨key', hkey', hbytes', hid⟩ := h.place id entry hentry
  have hbucket := hcoherent key' hkey' key hkey (hbytes.symm.trans hbytes')
  rw [hid] at hbucket
  refine ⟨?_, hbytes⟩
  rwa [hbucket]

omit [DecidableEq T] in
theorem push (h : Inv buffers mayFail s chains) (hcoherent : Coherent s.map.keySize buffers)
    {key : KeyBuffer} {value : Option ℕ} {entry : ℕ} (hkey : key ∈ buffers)
    (hprivate : Private s.map chains key value entry)
    (hnobody : ∀ t, own (s.threads t) ≠ some entry)
    (hnext : s.map.next entry = s.map.buckets (bucketID s.map.keySize key))
    (hnew : ∀ other, ¬s.map.Holds chains key other) :
    Inv buffers mayFail
        ((s.withMap (s.map.setBucket (bucketID s.map.keySize key) entry)).record (.put key value 0))
        (Function.update chains (bucketID s.map.keySize key)
          (entry :: chains (bucketID s.map.keySize key))) ∧
      Grows s.map chains (s.map.setBucket (bucketID s.map.keySize key) entry)
        (Function.update chains (bucketID s.map.keySize key)
          (entry :: chains (bucketID s.map.keySize key))) := by
  obtain ⟨id, hid⟩ : ∃ id, id = bucketID s.map.keySize key := ⟨_, rfl⟩
  rw [← hid] at hnext ⊢
  obtain ⟨chains', hchains'⟩ : ∃ chains', chains' = Function.update chains id (entry :: chains id) :=
    ⟨_, rfl⟩
  have hself : chains' id = entry :: chains id := by rw [hchains', Function.update_self]
  have hother : ∀ id', id' ≠ id → chains' id' = chains id' := by
    intro id' hne
    rw [hchains', Function.update_of_ne hne]
  have hgrows : Grows s.map chains (s.map.setBucket id entry) chains' := by
    constructor
    · rfl
    · intro id'
      by_cases heq : id' = id
      · rw [heq, hself]
        exact List.suffix_cons entry (chains id)
      · exact (hother id' heq).symm ▸ List.suffix_rfl
    · exact fun _ _ _ => rfl
  -- the entries that were there, and the new one
  have hmem : ∀ id' other, other ∈ chains' id' ↔ other ∈ chains id' ∨ id' = id ∧ other = entry := by
    intro id' other
    by_cases heq : id' = id
    · rw [heq, hself, List.mem_cons, or_comm]
      simp
    · rw [hother id' heq]
      simp [heq]
  have hhas : ∀ bytes, HasKey (s.map.setBucket id entry) chains' bytes ↔
      HasKey s.map chains bytes ∨ keyBytes s.map.keySize key = bytes := by
    intro bytes
    constructor
    · rintro ⟨id', other, hin, hbytes⟩
      rcases (hmem id' other).mp hin with hin | ⟨-, rfl⟩
      · exact .inl ⟨id', other, hin, hbytes⟩
      · exact .inr (hprivate.key.symm.trans hbytes)
    · rintro (⟨id', other, hin, hbytes⟩ | hbytes)
      · exact ⟨id', other, (hmem id' other).mpr (.inl hin), hbytes⟩
      · exact ⟨id, entry, (hmem id entry).mpr (.inr ⟨rfl, rfl⟩), hprivate.key.trans hbytes⟩
  have habsent : ¬HasKey s.map chains (keyBytes s.map.keySize key) := by
    rintro ⟨id', other, hin, hbytes⟩
    exact hnew other (h.holds_of_key hcoherent hkey hin hbytes)
  have hcount : ∀ bytes, successes s.map.keySize bytes (.put key value 0 :: s.log) =
      successes s.map.keySize bytes s.log + if keyBytes s.map.keySize key = bytes then 1 else 0 := by
    intro bytes
    unfold successes
    rw [List.countP_cons]
    simp [isSuccess]
  rw [← hchains']
  refine ⟨?_, hgrows⟩
  constructor
  · show (s.map.setBucket id entry).Chained chains'
    rw [hchains']
    apply h.chained.setBucket hprivate.out hnext hprivate.held
    intro other hin heq
    rw [hprivate.key] at heq
    exact habsent ⟨id, other, hin, heq⟩
  · intro id' other hin
    rcases (hmem id' other).mp hin with hin | ⟨rfl, rfl⟩
    · exact h.place id' other hin
    · exact ⟨key, hkey, hprivate.key, hid.symm⟩
  · intro t
    apply hgrows.threadInv (h.threads t)
    intro other hat
    obtain ⟨hheld, hout⟩ := (h.threads t).own hat
    refine ⟨rfl, hheld, ?_⟩
    intro id' hin
    rcases (hmem id' other).mp hin with hin | ⟨-, rfl⟩
    · exact hout id' hin
    · exact hnobody t hat
  · exact h.owner
  · intro event hevent
    rcases List.mem_cons.mp hevent with rfl | hevent
    · refine .inl ⟨rfl, entry, ⟨?_, hprivate.key⟩, hprivate.value⟩
      show entry ∈ chains' (bucketID s.map.keySize key)
      rw [← hid]
      exact (hmem id entry).mpr (.inr ⟨rfl, rfl⟩)
    · exact hgrows.eventInv (h.log event hevent)
  · intro bytes hbytes
    show successes s.map.keySize bytes (.put key value 0 :: s.log) = 1
    rw [hcount]
    rcases (hhas bytes).mp hbytes with hold | rfl
    · have hne : keyBytes s.map.keySize key ≠ bytes := by
        rintro rfl
        exact habsent hold
      rw [if_neg hne, h.present bytes hold]
    · rw [if_pos rfl, h.absent _ habsent]
  · intro bytes hbytes
    show successes s.map.keySize bytes (.put key value 0 :: s.log) = 0
    have hnone := mt (hhas bytes).mpr hbytes
    push Not at hnone
    rw [hcount, if_neg hnone.2, h.absent bytes hnone.1]

end Inv

/-! Steps -/

/-- The walk from the head of a bucket. -/
theorem Chained.searched (h : map.Chained chains) (key : KeyBuffer) :
    Searched map chains key (map.buckets (bucketID map.keySize key))
      (map.buckets (bucketID map.keySize key)) := by
  have hchain := h.chain (bucketID map.keySize key)
  exact ⟨[], _, List.suffix_rfl, hchain, hchain, fun _ hmem => absurd hmem List.not_mem_nil⟩

theorem Searched.next {key : KeyBuffer} {chain : Option ℕ} {entry : ℕ}
    (h : Searched map chains key chain (some entry))
    (hne : (map.heap entry).key ≠ keyBytes map.keySize key) :
    Searched map chains key chain (map.next entry) := by
  obtain ⟨passed, rest, hsuffix, hchain, hcurr, hall⟩ := h
  cases rest with
  | nil => exact absurd (chain_nil.mp hcurr) (by simp)
  | cons other rest =>
    obtain ⟨heq, hrest⟩ := hcurr
    cases heq
    refine ⟨passed ++ [entry], rest, ?_, ?_, hrest, ?_⟩
    · simpa using hsuffix
    · simpa using hchain
    · intro other hother
      rcases List.mem_append.mp hother with hother | hother
      · exact hall other hother
      · rw [List.mem_singleton.mp hother]
        exact hne

theorem Searched.holds {key : KeyBuffer} {chain : Option ℕ} {entry : ℕ}
    (h : Searched map chains key chain (some entry))
    (heq : (map.heap entry).key = keyBytes map.keySize key) : map.Holds chains key entry := by
  obtain ⟨passed, rest, hsuffix, -, hcurr, -⟩ := h
  cases rest with
  | nil => exact absurd (chain_nil.mp hcurr) (by simp)
  | cons other rest =>
    obtain ⟨hhead, -⟩ := hcurr
    cases hhead
    exact ⟨hsuffix.subset (by simp), heq⟩

/-- If the head is still the one that was read, the whole chain has been searched. -/
theorem Searched.not_holds (hchained : map.Chained chains) {key : KeyBuffer} {chain : Option ℕ}
    (h : Searched map chains key chain none) (hhead : map.buckets (bucketID map.keySize key) = chain)
    (entry : ℕ) : ¬map.Holds chains key entry := by
  obtain ⟨passed, rest, -, hchain, hcurr, hall⟩ := h
  rw [chain_none_iff.mp hcurr, List.append_nil] at hchain
  have hwhole := hchained.chain (bucketID map.keySize key)
  rw [hhead] at hwhole
  have hsame := hwhole.unique hchain
  rintro ⟨hmem, hkey⟩
  rw [hsame] at hmem
  exact hall entry hmem hkey

theorem Rest.next {id entry : ℕ} (h : Rest map chains id (some entry)) :
    Rest map chains id (map.next entry) ∧ entry ∈ chains id := by
  obtain ⟨entries, hsuffix, hchain⟩ := h
  cases entries with
  | nil => exact absurd (chain_nil.mp hchain) (by simp)
  | cons other entries =>
    obtain ⟨heq, hrest⟩ := hchain
    cases heq
    have htail : entries <:+ entry :: entries := List.suffix_cons entry entries
    exact ⟨⟨entries, htail.trans hsuffix, hrest⟩, hsuffix.subset List.mem_cons_self⟩

theorem Chained.rest (h : map.Chained chains) (id : ℕ) : Rest map chains id (map.buckets id) :=
  ⟨chains id, List.suffix_rfl, h.chain id⟩

theorem goto_goto (s : State T) (t : T) (a b : ThreadState) : (s.goto t a).goto t b = s.goto t b := by
  unfold State.goto
  rw [Function.update_idem]

theorem withMap_goto (s : State T) (map : CrossMemoryMap) (t : T) (a b : ThreadState) :
    ((s.goto t a).withMap map).goto t b = (s.withMap map).goto t b := goto_goto (s.withMap map) t a b

/-- A step that leaves the map alone, and gives the thread no new cell. -/
theorem Inv.stay {s : State T} (h : Inv buffers mayFail s chains) (t : T) (at' : ThreadState)
    (hat : ThreadInv buffers s.map chains at') (hown : own at' = none ∨ own at' = own (s.threads t)) :
    Inv buffers mayFail (s.goto t at') chains := by
  apply h.goto t at' hat
  intro entry hentry t' ht'
  rcases hown with hnone | hsame
  · rw [hnone] at hentry
    exact absurd hentry (by simp)
  · exact h.owner t' t entry ht' (hsame.symm.trans hentry)

omit [DecidableEq T] in
/-- Cells that are not the thread's own stay when a cell is written to. -/
theorem own_ne {s : State T} {t : T} {entry : ℕ} (h : ∀ t', own (s.threads t') ≠ some entry)
    {other : ℕ} (hother : own (s.threads t) = some other) : other ≠ entry := by
  rintro rfl
  exact h t hother

theorem Grows.of_out (hsize : map'.keySize = map.keySize) {entry : ℕ}
    (hout : ∀ id, entry ∉ chains id) (hheap : ∀ other, other ≠ entry → map'.heap other = map.heap other) :
    Grows map chains map' chains := by
  constructor
  · exact hsize
  · exact fun _ => List.suffix_rfl
  · exact fun id other hother => hheap other (ne_of_mem_of_not_mem hother (hout id))

/-- What one step preserves, and that it only adds to the chains. -/
theorem Inv.step {s s' : State T} (h : Inv buffers mayFail s chains)
    (hcoherent : Coherent s.map.keySize buffers) (hstep : Step buffers mayFail s s') :
    ∃ chains', Inv buffers mayFail s' chains' ∧ Grows s.map chains s'.map chains' := by
  cases hstep with
  | put t key value hidle hkey =>
    have hat := h.stay t (.putFind key value (s.head key) (s.head key))
      ⟨hkey, h.chained.searched key⟩ (.inl rfl)
    exact ⟨chains, hat, .refl _ _⟩
  | @putNext t key value chain entry ht hne =>
    have hinv := h.threads t
    rw [ht] at hinv
    exact ⟨chains, h.stay t _ ⟨hinv.1, hinv.2.next hne⟩ (.inl rfl), .refl _ _⟩
  | @putExists t key value chain entry ht heq =>
    have hinv := h.threads t
    rw [ht] at hinv
    have hevent := (h.idle t).record (.put key value 1)
      (.inr (.inl ⟨rfl, entry, hinv.2.holds heq⟩)) fun _ => by simp [isSuccess]
    exact ⟨chains, hevent, .refl _ _⟩
  | @putMake t key value chain newEntry ht hcell =>
    have hinv := h.threads t
    rw [ht] at hinv
    obtain ⟨hchained, hheap, hheld⟩ := h.chained.newEntry hcell key value chain
    obtain ⟨map, hmap⟩ : ∃ map, map = (s.map.makeEntry newEntry key value).setNext newEntry chain :=
      ⟨_, rfl⟩
    rw [← hmap] at hchained hheap hheld ⊢
    have hout := h.chained.notMem_of_free hcell
    have hsize : map.keySize = s.map.keySize := by
      rw [hmap]
      rfl
    have hsame : ∀ other, other ≠ newEntry → map.heap other = s.map.heap other := by
      intro other hother
      rw [hmap, heap_setNext_of_ne hother, heap_makeEntry_of_ne hother]
    have hnobody : ∀ t', own (s.threads t') ≠ some newEntry := by
      intro t' hown
      have hused := ((h.threads t').own hown).1
      rw [hcell] at hused
      exact absurd hused (by decide)
    have hgrows : Grows s.map chains map chains := .of_out hsize hout hsame
    have hmade : Inv buffers mayFail (s.withMap map) chains := by
      apply h.withMap hgrows hchained
      intro t' other hown
      have hother := own_ne hnobody hown
      refine ⟨hsame other hother, ?_⟩
      rw [hmap]
      exact (Function.update_of_ne hother _ _).trans ((h.threads t').own hown).1
    have hprivate : Private map chains key value newEntry := by
      refine ⟨hheld, hout, ?_, ?_⟩
      · rw [hheap, hsize]
      · rw [hheap]
    refine ⟨chains, hmade.goto t _ ⟨hinv.1, hgrows.searched hinv.2, hprivate, ?_⟩ ?_, hgrows⟩
    · show (map.heap newEntry).next = chain
      rw [hheap]
    · intro entry hentry t' ht'
      cases hentry
      exact absurd ht' (hnobody t')
  | @putNoCell t key value chain ht hfail =>
    have hevent := (h.idle t).record (.put key value (-1)) (.inr (.inr ⟨rfl, hfail⟩))
      fun _ => by simp [isSuccess]
    exact ⟨chains, hevent, .refl _ _⟩
  | @swap t key value chain newEntry ht heq =>
    have hinv := h.threads t
    rw [ht] at hinv
    obtain ⟨hkey, hsearched, hprivate, hnext⟩ := hinv
    have hown : own (s.threads t) = some newEntry := by
      rw [ht]
      rfl
    have hnew := hsearched.not_holds h.chained heq
    have hpush := (h.idle t).push hcoherent hkey hprivate (h.idle_own hown) (hnext.trans heq.symm) hnew
    exact ⟨_, hpush.1, hpush.2⟩
  | @swapFails t key value chain newEntry ht hne =>
    have hinv := h.threads t
    rw [ht] at hinv
    obtain ⟨hkey, -, hprivate, -⟩ := hinv
    have hat := h.stay t (.putFindAgain key value (s.head key) (s.head key) newEntry)
      ⟨hkey, h.chained.searched key, hprivate⟩ (.inr (by rw [ht]; rfl))
    exact ⟨chains, hat, .refl _ _⟩
  | @againNext t key value chain entry newEntry ht hne =>
    have hinv := h.threads t
    rw [ht] at hinv
    obtain ⟨hkey, hsearched, hprivate⟩ := hinv
    exact ⟨chains, h.stay t _ ⟨hkey, hsearched.next hne, hprivate⟩ (.inr (by rw [ht]; rfl)), .refl _ _⟩
  | @againExists t key value chain entry newEntry ht heq =>
    have hinv := h.threads t
    rw [ht] at hinv
    obtain ⟨hkey, hsearched, hprivate⟩ := hinv
    have hown : own (s.threads t) = some newEntry := by
      rw [ht]
      rfl
    have hgrows : Grows s.map chains (s.map.removeEntry newEntry) chains :=
      .of_out rfl hprivate.out fun _ _ => rfl
    have hremoved : Inv buffers mayFail ((s.goto t .idle).withMap (s.map.removeEntry newEntry)) chains := by
      apply (h.idle t).withMap hgrows (h.chained.removeEntry hprivate.out)
      intro t' other hother
      have hne := own_ne (h.idle_own hown) hother
      refine ⟨rfl, ?_⟩
      exact (Function.update_of_ne hne _ _).trans (((h.idle t).threads t').own hother).1
    have hevent := hremoved.record (.put key value 1)
      (.inr (.inl ⟨rfl, entry, hgrows.holds (hsearched.holds heq)⟩)) fun _ => by simp [isSuccess]
    exact ⟨chains, hevent, hgrows⟩
  | @againMissing t key value chain newEntry ht =>
    have hinv := h.threads t
    rw [ht] at hinv
    obtain ⟨hkey, hsearched, hprivate⟩ := hinv
    have hown : own (s.threads t) = some newEntry := by
      rw [ht]
      rfl
    have hself : (s.map.setNext newEntry chain).heap newEntry =
        { s.map.heap newEntry with next := chain } := Function.update_self _ _ _
    have hgrows : Grows s.map chains (s.map.setNext newEntry chain) chains :=
      .of_out rfl hprivate.out fun _ hother => heap_setNext_of_ne hother chain
    have hset : Inv buffers mayFail ((s.goto t .idle).withMap (s.map.setNext newEntry chain)) chains := by
      apply (h.idle t).withMap hgrows (h.chained.setNext hprivate.out chain)
      intro t' other hother
      exact ⟨heap_setNext_of_ne (own_ne (h.idle_own hown) hother) chain,
        (((h.idle t).threads t').own hother).1⟩
    have hprivate' : Private (s.map.setNext newEntry chain) chains key value newEntry := by
      refine ⟨hprivate.held, hprivate.out, ?_, ?_⟩
      · rw [hself]
        exact hprivate.key
      · rw [hself]
        exact hprivate.value
    have hat := hset.goto t (.putSwap key value chain newEntry)
      ⟨hkey, hgrows.searched hsearched, hprivate', congrArg CrossMemoryMapEntry.next hself⟩ (by
        intro entry hentry t' ht'
        cases hentry
        exact absurd ht' (h.idle_own hown t'))
    rw [withMap_goto] at hat
    exact ⟨chains, hat, hgrows⟩
  | get t key hidle hkey =>
    have hat := h.stay t (.getFind key (s.head key)) ⟨hkey, h.chained.rest _⟩ (.inl rfl)
    exact ⟨chains, hat, .refl _ _⟩
  | @getNext t key entry ht hne =>
    have hinv := h.threads t
    rw [ht] at hinv
    exact ⟨chains, h.stay t _ ⟨hinv.1, hinv.2.next.1⟩ (.inl rfl), .refl _ _⟩
  | @getFound t key entry ht heq =>
    have hinv := h.threads t
    rw [ht] at hinv
    have hevent := (h.idle t).record (.getHandle key (some entry)) (by
      intro found hfound
      cases hfound
      exact ⟨hinv.2.next.2, heq⟩) fun _ => rfl
    exact ⟨chains, hevent, .refl _ _⟩
  | @getMissing t key ht =>
    have hevent := (h.idle t).record (.getHandle key none)
      (fun _ hfound => absurd hfound (by simp)) fun _ => rfl
    exact ⟨chains, hevent, .refl _ _⟩
  | iterate t hidle =>
    have hat := h.stay t (.iterate 0 (s.map.buckets 0)) ⟨by decide, h.chained.rest 0⟩ (.inl rfl)
    exact ⟨chains, hat, .refl _ _⟩
  | @iterateNext t id entry ht =>
    have hinv := h.threads t
    rw [ht] at hinv
    have hat := h.stay t (.iterate id (s.map.next entry)) ⟨hinv.1, hinv.2.next.1⟩ (.inl rfl)
    have hevent := hat.record (.visit entry) ⟨id, hinv.1, hinv.2.next.2⟩ fun _ => rfl
    exact ⟨chains, hevent, .refl _ _⟩
  | @iterateStop t id entry ht =>
    have hinv := h.threads t
    rw [ht] at hinv
    have hevent := (h.idle t).record (.visit entry) ⟨id, hinv.1, hinv.2.next.2⟩ fun _ => rfl
    exact ⟨chains, hevent, .refl _ _⟩
  | @iterateBucket t id ht hid =>
    have hat := h.stay t (.iterate (id + 1) (s.map.buckets (id + 1)))
      ⟨hid, h.chained.rest (id + 1)⟩ (.inl rfl)
    exact ⟨chains, hat, .refl _ _⟩
  | @iterateEnd t id ht hid => exact ⟨chains, h.idle t, .refl _ _⟩

/-! Runs -/

omit [DecidableEq T] in
theorem Inv.initial {heap : ℕ → CrossMemoryMapEntry} {keySize : ℕ}
    (hmade : makeCrossMemoryMap heap keySize = some map) :
    Inv buffers mayFail (.initial map : State T) (fun _ => []) := by
  constructor
  · exact (Chained.made hmade).1
  · exact fun _ entry hentry => absurd hentry List.not_mem_nil
  · exact fun _ => trivial
  · exact fun _ _ entry hown => absurd hown (by simp [State.initial, own])
  · exact fun event hevent => absurd hevent List.not_mem_nil
  · rintro bytes ⟨id, entry, hentry, -⟩
    exact absurd hentry List.not_mem_nil
  · exact fun _ _ => rfl

theorem Inv.run {s s' : State T} (h : Inv buffers mayFail s chains)
    (hcoherent : Coherent s.map.keySize buffers) (hrun : Run buffers mayFail s s') :
    ∃ chains', Inv buffers mayFail s' chains' ∧ Grows s.map chains s'.map chains' := by
  induction hrun with
  | refl => exact ⟨chains, h, .refl _ _⟩
  | tail _ hstep ih =>
    obtain ⟨chains₁, h₁, hgrows₁⟩ := ih
    rw [← hgrows₁.keySize] at hcoherent
    obtain ⟨chains₂, h₂, hgrows₂⟩ := h₁.step hcoherent hstep
    exact ⟨chains₂, h₂, hgrows₁.trans hgrows₂⟩

theorem reaches_iff {p : Option ℕ} {entries : List ℕ} (h : Chain map.next p entries) (entry : ℕ) :
    Reaches map p entry ↔ entry ∈ entries := by
  induction entries generalizing p with
  | nil =>
    rw [chain_nil.mp h]
    exact ⟨nofun, fun hmem => absurd hmem List.not_mem_nil⟩
  | cons first entries ih =>
    obtain ⟨rfl, hrest⟩ := h
    rw [List.mem_cons]
    constructor
    · intro hreaches
      cases hreaches with
      | head => exact .inl rfl
      | next hnext => exact .inr ((ih hrest).mp hnext)
    · rintro (rfl | hmem)
      · exact .head entry
      · exact .next ((ih hrest).mpr hmem)

theorem bucketID_lt (keySize : ℕ) (key : KeyBuffer) : bucketID keySize key < CM_MAP_BUCKET_COUNT :=
  Nat.mod_lt _ (by decide)

omit [DecidableEq T] in
theorem Inv.published_iff {s : State T} (h : Inv buffers mayFail s chains) (entry : ℕ) :
    Published s.map entry ↔ ∃ id, entry ∈ chains id := by
  constructor
  · rintro ⟨id, -, hreaches⟩
    exact ⟨id, (reaches_iff (h.chained.chain id) entry).mp hreaches⟩
  · rintro ⟨id, hmem⟩
    obtain ⟨key, -, -, hid⟩ := h.place id entry hmem
    refine ⟨id, ?_, (reaches_iff (h.chained.chain id) entry).mpr hmem⟩
    rw [← hid]
    exact bucketID_lt _ _

def OneEntryPerKey (map : CrossMemoryMap) : Prop :=
  ∀ a b, Published map a → Published map b → (map.heap a).key = (map.heap b).key → a = b

/-- Of the puts of a key that have returned, and had a cell, one returned 0 and stored its value;
the others returned 1. -/
def OnePutSucceeds (mayFail : Prop) (s : State T) : Prop :=
  ∀ key value result, .put key value result ∈ s.log →
    (result = 0 ∨ result = 1 ∨ result = -1 ∧ mayFail) ∧
    (result ≠ -1 → successes s.map.keySize (keyBytes s.map.keySize key) s.log = 1) ∧
    (result = 0 → ∃ entry, Published s.map entry ∧
      (s.map.heap entry).key = keyBytes s.map.keySize key ∧ (s.map.heap entry).value = value)

omit [DecidableEq T] in
theorem Inv.oneEntryPerKey {s : State T} (h : Inv buffers mayFail s chains)
    (hcoherent : Coherent s.map.keySize buffers) : OneEntryPerKey s.map := by
  intro a b ha hb heq
  obtain ⟨id, ha⟩ := (h.published_iff a).mp ha
  obtain ⟨id', hb⟩ := (h.published_iff b).mp hb
  obtain ⟨key, hkey, hbytes, hid⟩ := h.place id a ha
  have hholds := h.holds_of_key hcoherent hkey hb (heq.symm.trans hbytes)
  have hsame : b ∈ chains id := by
    rw [← hid]
    exact hholds.1
  exact h.chained.entry_unique ha hsame heq

omit [DecidableEq T] in
theorem Inv.onePutSucceeds {s : State T} (h : Inv buffers mayFail s chains) :
    OnePutSucceeds mayFail s := by
  intro key value result hevent
  have hlog := h.log _ hevent
  refine ⟨?_, ?_, ?_⟩
  · rcases hlog with ⟨hzero, -⟩ | ⟨hone, -⟩ | hfail
    · exact .inl hzero
    · exact .inr (.inl hone)
    · exact .inr (.inr hfail)
  · intro hcell
    apply h.present
    rcases hlog with ⟨-, entry, hholds, -⟩ | ⟨-, entry, hholds⟩ | ⟨hfail, -⟩
    · exact ⟨_, entry, hholds.1, hholds.2⟩
    · exact ⟨_, entry, hholds.1, hholds.2⟩
    · exact absurd hfail hcell
  · intro hzero
    rcases hlog with ⟨-, entry, hholds, hvalue⟩ | ⟨hone, -⟩ | ⟨hfail, -⟩
    · exact ⟨entry, (h.published_iff entry).mpr ⟨_, hholds.1⟩, hholds.2, hvalue⟩
    · exact absurd (hzero.symm.trans hone) (by decide)
    · exact absurd (hzero.symm.trans hfail) (by decide)

/-- Whatever the threads do, in any order of their steps: there is at most one entry for a key,
one put of a key succeeds, what is in the map stays there as it is, and a cell that goes back to
the pool was never in it. -/
theorem run_safe {heap : ℕ → CrossMemoryMapEntry} {keySize : ℕ}
    (hmade : makeCrossMemoryMap heap keySize = some map) (hcoherent : Coherent keySize buffers)
    {s : State T} (hrun : Run buffers mayFail (.initial map) s) :
    OneEntryPerKey s.map ∧ OnePutSucceeds mayFail s ∧
      (∀ s', Run buffers mayFail s s' → ∀ entry, Published s.map entry →
        Published s'.map entry ∧ s'.map.heap entry = s.map.heap entry) ∧
      ∀ s', Step buffers mayFail s s' → ∀ entry, s.map.entryCellpool entry = true →
        s'.map.entryCellpool entry = false →
        ∀ r, Run buffers mayFail (.initial map) r → Run buffers mayFail r s → ¬Published r.map entry := by
  have hsize := (Chained.made hmade).2
  have hfirst : Inv buffers mayFail (.initial map : State T) (fun _ => []) := .initial hmade
  have hcoherent' : Coherent (State.initial map : State T).map.keySize buffers := by
    show Coherent map.keySize buffers
    rwa [hsize]
  obtain ⟨chains, h, hgrows⟩ := hfirst.run hcoherent' hrun
  have hs : Coherent s.map.keySize buffers := by rwa [hgrows.keySize]
  refine ⟨h.oneEntryPerKey hs, h.onePutSucceeds, ?_, ?_⟩
  · intro s' hrun' entry hentry
    obtain ⟨chains', h', hgrows'⟩ := h.run hs hrun'
    obtain ⟨id, hmem⟩ := (h.published_iff entry).mp hentry
    exact ⟨(h'.published_iff entry).mpr ⟨id, (hgrows'.suffix id).subset hmem⟩, hgrows'.heap id entry hmem⟩
  · intro s' hstep entry _ hfree r hr hrs hentry
    -- what was in the map at any time still is, and is not free
    obtain ⟨chainsr, hinvr, hgrowsr⟩ := hfirst.run hcoherent' hr
    have hcr : Coherent r.map.keySize buffers := by rwa [hgrowsr.keySize]
    obtain ⟨chains', h', hgrows'⟩ := hinvr.run hcr (hrs.tail hstep)
    obtain ⟨id, hmem⟩ := (hinvr.published_iff entry).mp hentry
    have hheld := h'.chained.held id entry ((hgrows'.suffix id).subset hmem)
    rw [hfree] at hheld
    exact absurd hheld (by decide)

/-- Two threads put one key: both make an entry, the second finds that the first was faster. -/
theorem run_safe_race : ∃ s : State Bool,
    Run Set.univ False (.initial ⟨4, fun _ => false, fun _ => none, fun _ => ⟨none, none, []⟩⟩) s ∧
      s.log = [.put (fun _ => 7) (some 2) 1, .put (fun _ => 7) (some 1) 0] ∧
      OneEntryPerKey s.map ∧ OnePutSucceeds False s := by
  have hmade : makeCrossMemoryMap (fun _ => ⟨none, none, []⟩) 4 =
      some ⟨4, fun _ => false, fun _ => none, fun _ => ⟨none, none, []⟩⟩ := rfl
  have hcoherent : Coherent 4 Set.univ := (coherent_univ_iff (by decide)).mpr (by decide)
  have h₀ : Run Set.univ False (.initial ⟨4, fun _ => false, fun _ => none,
      fun _ => ⟨none, none, []⟩⟩ : State Bool) _ := .refl
  have h₁ := h₀.tail (.put false (fun _ => 7) (some 1) rfl trivial)
  have h₂ := h₁.tail (.put true (fun _ => 7) (some 2) rfl trivial)
  have h₃ := h₂.tail (.putMake (t := false) 0 rfl rfl)
  have h₄ := h₃.tail (.putMake (t := true) 1 rfl rfl)
  have h₅ := h₄.tail (.swap (t := false) rfl rfl)
  have h₆ := h₅.tail (.swapFails (t := true) rfl (by decide))
  have h₇ := h₆.tail (.againExists (t := true) rfl rfl)
  have hsafe := run_safe hmade hcoherent h₇
  exact ⟨_, h₇, rfl, hsafe.1, hsafe.2.1⟩

end CrossMemoryMap
end ZoweCommon
