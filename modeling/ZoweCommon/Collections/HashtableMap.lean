import ZoweCommon.Lib.KeyedMap
import ZoweCommon.Collections.HashtableSpec

/-! The hashtable as a finite map: any sequence of calls answers as the map does. -/
namespace ZoweCommon
namespace Hashtable

open Linked

variable {M K V : Type}

inductive Call (K V : Type)
  | put (key : K) (value : Option V)
  | get (key : K)
  | remove (key : K)
  | prune (matcher : K → Option V → Bool) (destroyer : Bool)
  | count

inductive Answer (V : Type)
  | status (n : ℕ)
  | value (v : Option V)

/-- The predicates of `htAlter`; a null pointer is a predicate that never holds. -/
structure Policy (M V : Type) where
  keepEntry : Option (M → Option V → Bool)
  entryExpired : Option (M → Option V → Bool)
  removeEntry : Option (M → Option V → Bool)

section Concrete

variable [DecidableEq K] [Pointer K]

def perform (mem : M) (ht : Hashtable M K V) : Call K V → Exec (Answer V × Hashtable M K V)
  | .put key value => do
    let (n, ht) ← htPut mem ht key value
    return (.status n, ht)
  | .get key => do
    let (v, ht) ← htGet mem ht key
    return (.value v, ht)
  | .remove key => do
    let (n, ht) ← htRemove mem ht key
    return (.status n, ht)
  | .prune matcher destroyer => do
    let (n, ht) ← htPrune ht matcher destroyer
    return (.status n, ht)
  | .count => do
    let n ← htCount ht
    return (.status n, ht)

/-- Calls one after the other, each with the memory it finds. -/
def performAll (ht : Hashtable M K V) : List (M × Call K V) →
    Exec (List (Answer V) × Hashtable M K V)
  | [] => return ([], ht)
  | (mem, call) :: calls => do
    let (answer, ht) ← ht.perform mem call
    let (answers, ht) ← ht.performAll calls
    return (answer :: answers, ht)

/-- The hash code of a key before masking. -/
def keyHash (hash : Option (K → BitVec 32)) (key : K) : BitVec 32 :=
  match hash with
  | some hash => hash key
  | none => Pointer.intFromPointer key

omit [Pointer K] in
def keyCompare (compare : Option (K → K → Bool)) (key1 key2 : K) : Bool :=
  match compare with
  | some compare => compare key1 key2
  | none => key1 == key2

end Concrete

section Abstract

variable {s : Setoid K}

noncomputable def Call.meaning (P : Policy M V) (mem : M) (m : KeyedMap s (Option V)) :
    Call K V → Answer V × KeyedMap s (Option V)
  | .put key value =>
    match m.find key with
    | none => (.status 0, m.put key value)
    | some e => if P.keepEntry.any (· mem e.2) then (.status 2, m) else (.status 1, m.put key value)
  | .get key =>
    match m.find key with
    | none => (.value none, m)
    | some e =>
      if P.entryExpired.any (· mem e.2) then (.value none, m.erase key)
      else if P.removeEntry.any (· mem e.2) then (.value e.2, m.erase key)
      else (.value e.2, m)
  | .remove key =>
    match m.find key with
    | none => (.status 0, m)
    | some _ => (.status 1, m.erase key)
  | .prune matcher _ =>
    (.status (m.entries.filter fun e => matcher e.1 e.2).card, m.prune fun e => matcher e.1 e.2)
  | .count => (.status m.card, m)

noncomputable def meaningAll (P : Policy M V) (m : KeyedMap s (Option V)) :
    List (M × Call K V) → List (Answer V) × KeyedMap s (Option V)
  | [] => ([], m)
  | (mem, call) :: calls =>
    let (answer, m) := call.meaning P mem m
    let (answers, m) := meaningAll P m calls
    (answer :: answers, m)

end Abstract

section Simulation

variable [DecidableEq K] [Pointer K] {ht : Hashtable M K V} {s : Setoid K}

/-- A table simulates a map: the map's equality is the comparator, and the entries agree. -/
structure Simulates (P : Policy M V) (s : Setoid K) (ht : Hashtable M K V)
    (m : KeyedMap s (Option V)) : Prop where
  policy : P = ⟨ht.keepEntry, ht.entryExpired, ht.removeEntry⟩
  compare : ∀ mem k l, ht.compare mem k l = true ↔ s.r k l
  hashcode : ∀ mem mem' k l, s.r k l → ht.hashcode mem k = ht.hashcode mem' l
  represents : ∀ mem, Represents mem ht {e | e ∈ m.entries}

theorem Simulates.coherent {P : Policy M V} {m : KeyedMap s (Option V)} (h : Simulates P s ht m)
    (mem : M) : Coherent mem ht where
  equivalence := by
    simp only [h.compare]
    exact s.iseqv
  hashcode k l hkl := h.hashcode mem mem k l ((h.compare mem k l).mp hkl)

theorem Simulates.compare_false {P : Policy M V} {m : KeyedMap s (Option V)}
    (h : Simulates P s ht m) (mem : M) (k l : K) : ht.compare mem k l = false ↔ ¬s.r k l := by
  rw [← h.compare mem, Bool.not_eq_true]

/-- What one call leaves behind again simulates a map, whatever memory it found. -/
theorem Simulates.step {P : Policy M V} {m m' : KeyedMap s (Option V)} {ht' : Hashtable M K V}
    (h : Simulates P s ht m) (mem : M) (hset : SameSetup ht ht')
    (hrep : Represents mem ht' {e | e ∈ m'.entries}) : Simulates P s ht' m' where
  policy := by rw [hset.keepEntry, hset.entryExpired, hset.removeEntry, h.policy]
  compare mem k l := by rw [hset.compare, h.compare]
  hashcode mem mem' k l hkl := by rw [hset.hashcode, hset.hashcode, h.hashcode mem mem' k l hkl]
  represents mem' := by
    refine hrep.of_memory (fun e _ => ?_) fun e _ f _ => ?_
    · rw [hset.hashcode, hset.hashcode, h.hashcode mem' mem e.1 e.1 (s.refl e.1)]
    · rw [hset.compare, hset.compare, Bool.eq_iff_iff, h.compare, h.compare]

omit [DecidableEq K] [Pointer K] in
theorem insert_of_find_none {m : KeyedMap s (Option V)} {key : K} (hf : m.find key = none)
    (value : Option V) :
    insert (key, value) {e | e ∈ m.entries} = {e | e ∈ (m.put key value).entries} := by
  ext e
  have hnone := KeyedMap.find_eq_none_iff.mp hf e
  simp only [Set.mem_insert_iff, Set.mem_ofPred_eq, KeyedMap.mem_put]
  tauto

section

variable {P : Policy M V} {m : KeyedMap s (Option V)} (h : Simulates P s ht m)

include h

theorem Simulates.missing {key : K} (hf : m.find key = none) (mem : M) :
    ∀ e ∈ {e | e ∈ m.entries}, ht.compare mem e.1 key = false := by
  intro e he
  rw [h.compare_false]
  exact KeyedMap.find_eq_none_iff.mp hf e he

theorem Simulates.found {key : K} {e : K × Option V} (hf : m.find key = some e) (mem : M) :
    e ∈ {e | e ∈ m.entries} ∧ ht.compare mem e.1 key = true := by
  obtain ⟨he, hek⟩ := KeyedMap.find_eq_some_iff.mp hf
  exact ⟨he, (h.compare mem e.1 key).mpr hek⟩

theorem Simulates.erased (mem : M) (key : K) :
    {f ∈ {e | e ∈ m.entries} | ht.compare mem f.1 key = false} =
      {e | e ∈ (m.erase key).entries} := by
  ext e
  simp [h.compare_false]

theorem Simulates.replaced (mem : M) (key : K) (value : Option V) :
    insert (key, value) {f ∈ {e | e ∈ m.entries} | ht.compare mem f.1 key = false} =
      {e | e ∈ (m.put key value).entries} := by
  ext e
  simp [h.compare_false]

theorem Simulates.perform (mem : M) (call : Call K V) :
    ∃ ht', ht.perform mem call = .ok ((call.meaning P mem m).1, ht') ∧
      Simulates P s ht' (call.meaning P mem m).2 := by
  have hrep := h.represents mem
  have hk := h.coherent mem
  have hpolicy := h.policy
  cases call with
  | put key value =>
    cases hf : m.find key with
    | none =>
      obtain ⟨ht', hrun, hset, hrep'⟩ := hrep.htPut_missing hk (h.missing hf mem) value
      rw [insert_of_find_none hf] at hrep'
      simp only [Call.meaning, hf]
      exact ⟨ht', by simp [Hashtable.perform, hrun], h.step mem hset hrep'⟩
    | some e =>
      obtain ⟨he, hcmp⟩ := h.found hf mem
      have hput := hrep.htPut_found hk he hcmp value
      simp only [Call.meaning, hf, hpolicy]
      split_ifs at hput ⊢ with hkeep
      · exact ⟨ht, by simp [Hashtable.perform, hput], hpolicy ▸ h⟩
      · obtain ⟨ht', hrun, hset, hrep'⟩ := hput
        rw [h.replaced] at hrep'
        exact ⟨ht', by simp [Hashtable.perform, hrun], hpolicy ▸ h.step mem hset hrep'⟩
  | get key =>
    cases hf : m.find key with
    | none =>
      have hrun := hrep.htGet_missing (h.missing hf mem)
      simp only [Call.meaning, hf]
      exact ⟨ht, by simp [Hashtable.perform, hrun], h⟩
    | some e =>
      obtain ⟨he, hcmp⟩ := h.found hf mem
      obtain ⟨ht', hrun, hset, hrep'⟩ := hrep.htGet_found hk he hcmp
      rw [h.erased] at hrep'
      refine ⟨ht', ?_, ?_⟩
      · simp only [Hashtable.perform, hrun, Exec.ok_bind, Call.meaning, hf, hpolicy]
        split_ifs <;> rfl
      · simp only [Call.meaning, hf, hpolicy]
        by_cases hexp : ht.entryExpired.any (· mem e.2) = true
        · rw [if_pos (by simp [drops, hexp])] at hrep'
          rw [if_pos hexp]
          exact hpolicy ▸ h.step mem hset hrep'
        · rw [if_neg hexp]
          by_cases hrem : ht.removeEntry.any (· mem e.2) = true
          · rw [if_pos (by simp [drops, hrem])] at hrep'
            rw [if_pos hrem]
            exact hpolicy ▸ h.step mem hset hrep'
          · rw [if_neg (by simp [drops, hexp, hrem])] at hrep'
            rw [if_neg hrem]
            exact hpolicy ▸ h.step mem hset hrep'
  | remove key =>
    cases hf : m.find key with
    | none =>
      have hrun := hrep.htRemove_missing (h.missing hf mem)
      simp only [Call.meaning, hf]
      exact ⟨ht, by simp [Hashtable.perform, hrun], h⟩
    | some e =>
      obtain ⟨he, hcmp⟩ := h.found hf mem
      obtain ⟨ht', hrun, hset, hrep'⟩ := hrep.htRemove_found hk he hcmp
      rw [h.erased] at hrep'
      simp only [Call.meaning, hf]
      exact ⟨ht', by simp [Hashtable.perform, hrun], h.step mem hset hrep'⟩
  | prune matcher destroyer =>
    obtain ⟨l, ht', hnd, hl, hrun, hset, hrep'⟩ := hrep.htPrune_spec hk matcher destroyer
    rw [KeyedMap.countP_eq_card hnd hl] at hrun
    refine ⟨ht', by simp [Hashtable.perform, hrun, Call.meaning], h.step mem hset ?_⟩
    convert hrep' using 1
    ext e
    simp [Call.meaning]
  | count =>
    obtain ⟨l, hnd, hl, hrun⟩ := hrep.htCount_spec hk
    rw [KeyedMap.length_eq_card hnd hl] at hrun
    exact ⟨ht, by simp [Hashtable.perform, hrun, Call.meaning], h⟩

theorem Simulates.performAll (calls : List (M × Call K V)) :
    ∃ ht', ht.performAll calls = .ok ((meaningAll P m calls).1, ht') ∧
      Simulates P s ht' (meaningAll P m calls).2 := by
  induction calls generalizing ht m with
  | nil => exact ⟨ht, rfl, h⟩
  | cons c calls ih =>
    obtain ⟨mem, call⟩ := c
    obtain ⟨ht₁, hrun₁, hsim₁⟩ := h.perform mem call
    obtain ⟨ht₂, hrun₂, hsim₂⟩ := ih hsim₁
    refine ⟨ht₂, ?_, hsim₂⟩
    simp [Hashtable.performAll, hrun₁, hrun₂, meaningAll]

end

/-- The chains in memory hold the entries of the map, each once and in the slot of its
hash, and no chain has two equal keys. -/
structure Holds (mem : M) (ht : Hashtable M K V) (chains : ℕ → List ℕ)
    (m : KeyedMap s (Option V)) : Prop where
  chain : ∀ i, Chain ht.next (ht.backbone i) (chains i)
  entryAt : ∀ i, ∀ a ∈ chains i, ∃ e, ht.entryAt a = some e ∧ ht.place mem e.1 = i
  bucket : ∀ i, (ht.slotEntries chains i).Pairwise fun e f => ¬s.r e.1 f.1
  nodup : (ht.entries chains).Nodup
  mem_iff : ∀ e, e ∈ ht.entries chains ↔ e ∈ m.entries

theorem Simulates.holds {P : Policy M V} {m : KeyedMap s (Option V)} (h : Simulates P s ht m)
    (mem : M) : ∃ chains, Holds mem ht chains m := by
  obtain ⟨chains, free, hrep, hcontents⟩ := h.represents mem
  refine ⟨chains, hrep.chain, hrep.keyed, fun i => ?_, hrep.nodup_entries (h.coherent mem),
    fun e => ?_⟩
  · exact (hrep.slotEntries_pairwise i).imp fun hef => (h.compare_false mem _ _).mp hef
  · rw [hrep.mem_entries, hcontents]
    rfl

end Simulation

section Refinement

variable [DecidableEq K] [Pointer K]

/-- The table `htCreate` makes, with the predicates of `htAlter`. -/
def create (safeMalloc : ℕ → ℕ) (backboneSize : ℕ) (hash : Option (K → BitVec 32))
    (compare : Option (K → K → Bool)) (keyReclaimer valueReclaimer : Bool) (P : Policy M V) :
    Hashtable M K V :=
  htAlter (htCreate safeMalloc backboneSize (hash.map fun h _ => h) (compare.map fun c _ => c)
    keyReclaimer valueReclaimer) P.keepEntry P.entryExpired P.removeEntry

/-- Keys that the comparator finds equal. -/
def keySetoid (compare : Option (K → K → Bool))
    (heq : Equivalence fun k l => keyCompare compare k l = true) : Setoid K :=
  ⟨_, heq⟩

theorem keyCompare_equivalence :
    Equivalence fun k l : BitVec 64 => keyCompare none k l = true := by
  simp only [keyCompare, beq_iff_eq]
  exact eq_equivalence

/-- Integers are equal only to themselves. -/
abbrev keys : Setoid (BitVec 64) := keySetoid none keyCompare_equivalence

theorem keys_iff {k l : BitVec 64} : keys.r k l ↔ k = l := by
  show (k == l) = true ↔ k = l
  exact beq_iff_eq

theorem simulates_create {safeMalloc : ℕ → ℕ} {backboneSize : ℕ}
    {hash : Option (K → BitVec 32)} {compare : Option (K → K → Bool)}
    (keyReclaimer valueReclaimer : Bool) (P : Policy M V) (hpos : 0 < backboneSize)
    (hd : ∀ i j, i < j →
      safeMalloc i + FixedBlockMgr.extentSize HASHENTRY_SIZE 256 ≤ safeMalloc j ∨
      safeMalloc j + FixedBlockMgr.extentSize HASHENTRY_SIZE 256 ≤ safeMalloc i)
    (heq : Equivalence fun k l => keyCompare compare k l = true)
    (hcompat : ∀ k l, keyCompare compare k l = true → keyHash hash k = keyHash hash l) :
    Simulates P (keySetoid compare heq)
      (create safeMalloc backboneSize hash compare keyReclaimer valueReclaimer P)
      (KeyedMap.empty _) where
  policy := rfl
  compare mem k l := by
    cases compare <;> rfl
  hashcode mem mem' k l hkl := by
    have := hcompat k l hkl
    cases hash with
    | none =>
      change Pointer.intFromPointer k &&& _ = Pointer.intFromPointer l &&& _
      exact congrArg (· &&& _) this
    | some hash => exact congrArg (· &&& 0x7FFFFFFF#32) this
  represents mem := by
    have hnone : {e : K × Option V | e ∈ (KeyedMap.empty (keySetoid compare heq)).entries} = ∅ := by
      ext e
      simp
    rw [hnone]
    exact represents_htAlter_htCreate hpos hd

/-- Every sequence of calls on a new table returns, answers as a finite map does, and
leaves the entries of that map on the chains. -/
theorem performAll_create_eq_meaningAll (safeMalloc : ℕ → ℕ) (backboneSize : ℕ)
    (hash : Option (K → BitVec 32)) (compare : Option (K → K → Bool))
    (keyReclaimer valueReclaimer : Bool) (P : Policy M V) (calls : List (M × Call K V))
    (hpos : 0 < backboneSize)
    (hd : ∀ i j, i < j →
      safeMalloc i + FixedBlockMgr.extentSize HASHENTRY_SIZE 256 ≤ safeMalloc j ∨
      safeMalloc j + FixedBlockMgr.extentSize HASHENTRY_SIZE 256 ≤ safeMalloc i)
    (heq : Equivalence fun k l => keyCompare compare k l = true)
    (hcompat : ∀ k l, keyCompare compare k l = true → keyHash hash k = keyHash hash l) :
    ∃ ht, performAll (create safeMalloc backboneSize hash compare keyReclaimer valueReclaimer P)
        calls = .ok ((meaningAll P (KeyedMap.empty (keySetoid compare heq)) calls).1, ht) ∧
      ∀ mem, ∃ chains,
        Holds mem ht chains (meaningAll P (KeyedMap.empty (keySetoid compare heq)) calls).2 := by
  have hcreate := simulates_create keyReclaimer valueReclaimer P hpos hd heq hcompat
  obtain ⟨ht, hrun, hsim⟩ := hcreate.performAll calls
  exact ⟨ht, hrun, hsim.holds⟩

/-- One slot, so that every key collides, and a table whose entries leave when they are read. -/
theorem performAll_create_eq_meaningAll_collision :
    let P : Policy Unit ℕ := ⟨none, none, some fun _ _ => true⟩
    let calls : List (Unit × Call (BitVec 64) ℕ) :=
      [((), .put 1 (some 5)), ((), .put 2 (some 6)), ((), .get 1), ((), .put 3 none), ((), .count)]
    ∃ heq : Equivalence fun k l : BitVec 64 => keyCompare none k l = true,
      ∃ ht, performAll (create (fun i => i * 10000) 1 none none true false P) calls =
          .ok ((meaningAll P (KeyedMap.empty (keySetoid none heq)) calls).1, ht) ∧
        ∀ mem, ∃ chains,
          Holds mem ht chains (meaningAll P (KeyedMap.empty (keySetoid none heq)) calls).2 := by
  intro P calls
  refine ⟨keyCompare_equivalence, performAll_create_eq_meaningAll (fun i => i * 10000) 1 none none
    true false P calls (by decide) extents_apart keyCompare_equivalence (fun k l hkl => ?_)⟩
  rw [keys_iff.mp hkl]

end Refinement

end Hashtable
end ZoweCommon
