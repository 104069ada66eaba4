import ZoweCommon.Lib.Recency
import ZoweCommon.Collections.LRUInvariant

/-! Runs of the LRU cache: the digests in it are kept in the order of their last store, and
a full cache evicts the one stored longest ago. -/
namespace ZoweCommon
namespace LRUCache

open Hashtable Recency

variable {D : Type} {cache : LRUCache D} {as : List ℕ}

theorem Wf.setHt (h : Wf cache as) {ht : Hashtable (ℕ → Digest) DigestPtr ℕ}
    (hfiled : Filed cache.digest ht {a | a ∈ as}) : Wf (cache.setHt ht) as :=
  ⟨h.links, h.count, h.size, hfiled, h.digests, h.allocated, h.fresh⟩

/-- A lookup hands out the data of the element filed under the digest. -/
theorem Wf.lruGet (h : Wf cache as) (d : Digest) :
    ∃ r cache', ZoweCommon.lruGet cache d = .ok (r, cache') ∧ Wf cache' as ∧
      cache'.digest = cache.digest ∧ cache'.size = cache.size ∧
      (∀ a ∈ as, cache.digest a = d → r = cache.data a) ∧ (d ∉ as.map cache.digest → r = none) := by
  unfold ZoweCommon.lruGet
  by_cases hd : d ∈ as.map cache.digest
  · obtain ⟨a, ha, rfl⟩ := List.mem_map.mp hd
    obtain ⟨ht', hget, hfiled⟩ := h.filed.htGet_found (.caller (cache.digest a)) ha rfl
    rw [hget]
    refine ⟨cache.data a, cache.setHt ht', rfl, h.setHt hfiled, rfl, rfl, ?_, fun hn => absurd hd hn⟩
    intro b hb hba
    rw [List.inj_on_of_nodup_map h.digests hb ha hba]
  · have hnone : ∀ a ∈ {a | a ∈ as}, cache.digest a ≠ DigestPtr.read cache.digest (.caller d) := by
      rintro a ha rfl
      exact hd (List.mem_map_of_mem ha)
    rw [h.filed.htGet_missing hnone]
    refine ⟨none, cache.setHt cache.ht, rfl, h.setHt h.filed, rfl, rfl, ?_, fun _ => rfl⟩
    rintro a ha rfl
    exact absurd (List.mem_map_of_mem ha) hd

theorem map_erase_of_nodup {f : ℕ → Digest} {a : ℕ} (hnd : (as.map f).Nodup) (ha : a ∈ as) :
    (as.erase a).map f = (as.map f).erase (f a) := by
  induction as with
  | nil => simp at ha
  | cons b bs ih =>
    obtain ⟨hb, hnd⟩ := List.nodup_cons.mp hnd
    rcases eq_or_ne b a with rfl | hba
    · simp
    · have ha := (List.mem_cons.mp ha).resolve_left hba.symm
      have hne : f b ≠ f a := fun heq => hb (heq ▸ List.mem_map_of_mem ha)
      have hbeq : ¬(b == a) = true := by simpa using hba
      have hfbeq : ¬(f b == f a) = true := by simpa using hne
      rw [List.map_cons, List.erase_cons_tail hbeq, List.erase_cons_tail hfbeq, List.map_cons,
        ih hnd ha]

/-- When there is no room, the oldest element is recycled, whether or not it is the only one. -/
theorem Wf.replace {pre : List ℕ} {o : ℕ} (h : Wf cache (pre ++ [o]))
    (hfull : cache.count = cache.size) {d : Digest} (hd : d ∉ (pre ++ [o]).map cache.digest)
    (thing : Option D) :
    ∃ cache', (if 2 ≤ cache.size then cache.recycle d thing
        else if cache.size = 1 then cache.recycleOnly d thing else .ok (none, cache)) =
          .ok (cache.data o, cache') ∧ Wf cache' (o :: pre) ∧
      cache'.digest = Function.update cache.digest o d ∧
      cache'.data = Function.update cache.data o thing ∧ cache'.size = cache.size := by
  have hlen := h.count
  rw [List.length_append, List.length_singleton, hfull] at hlen
  by_cases htwo : 2 ≤ cache.size
  · have hpre : pre ≠ [] := by
      rintro rfl
      simp at hlen
      omega
    rw [if_pos htwo]
    exact h.recycle hpre hd thing
  · obtain rfl : pre = [] := List.length_eq_zero_iff.mp (by omega)
    have hone : cache.size = 1 := by simpa using hlen.symm
    rw [if_neg htwo, if_pos hone]
    exact Wf.recycleOnly h d thing

/-- An element holds the thing stored under a digest new to the cache, or what it held before. -/
def Holds (cache : LRUCache D) (as : List ℕ) (d : Digest) (thing : Option D) (cache' : LRUCache D)
    (a : ℕ) : Prop :=
  d ∉ as.map cache.digest ∧ cache'.digest a = d ∧ cache'.data a = thing ∨
    a ∈ as ∧ cache'.digest a = cache.digest a ∧ cache'.data a = cache.data a

theorem holds_update {d : Digest} {thing : Option D} {cache' : LRUCache D} {o : ℕ} {rest : List ℕ}
    (hd : d ∉ as.map cache.digest) (hrest : ∀ a ∈ rest, a ∈ as)
    (hdigest : cache'.digest = Function.update cache.digest o d)
    (hdata : cache'.data = Function.update cache.data o thing) :
    ∀ a ∈ o :: rest, Holds cache as d thing cache' a := by
  intro a ha
  unfold Holds
  rw [hdigest, hdata]
  by_cases hao : a = o
  · left
    rw [hao, Function.update_self, Function.update_self]
    exact ⟨hd, rfl, rfl⟩
  · right
    rw [Function.update_of_ne hao, Function.update_of_ne hao]
    exact ⟨hrest a ((List.mem_cons.mp ha).resolve_left hao), rfl, rfl⟩

/-- A store does to the digests what a use does to a bounded recency list, and hands back
the data of the element whose digest falls out. -/
theorem Wf.lruStore (h : Wf cache as) (d : Digest) (thing : Option D) :
    ∃ decached cache' as', ZoweCommon.lruStore cache d thing = .ok (decached, cache') ∧
      Wf cache' as' ∧ cache'.size = cache.size ∧
      as'.map cache'.digest = (store cache.size d (as.map cache.digest)).1 ∧
      (∀ a ∈ as, (store cache.size d (as.map cache.digest)).2 = some (cache.digest a) →
        decached = cache.data a) ∧
      ((store cache.size d (as.map cache.digest)).2 = none → decached = none) ∧
      ∀ a ∈ as', Holds cache as d thing cache' a := by
  unfold ZoweCommon.lruStore Recency.store
  by_cases hd : d ∈ as.map cache.digest
  · obtain ⟨a, ha, rfl⟩ := List.mem_map.mp hd
    obtain ⟨ht', hget, hfiled⟩ := h.filed.htGet_found (.caller (cache.digest a)) ha rfl
    obtain ⟨cache', hrun, hwf, hrelinked⟩ := (h.setHt hfiled).recache ha
    rw [hget, if_pos hd]
    refine ⟨none, cache', a :: as.erase a, ?_, hwf, hrelinked.size, ?_, by simp, fun _ => rfl, ?_⟩
    · simp only [Exec.ok_bind, hrun]
      rfl
    · rw [hrelinked.digest, List.map_cons]
      exact congrArg _ (map_erase_of_nodup h.digests ha)
    · intro b hb
      have hmem : b ∈ as := (List.perm_cons_erase ha).mem_iff.mpr hb
      exact .inr ⟨hmem, congrFun hrelinked.digest b, congrFun hrelinked.data b⟩
  · have hnone : ∀ a ∈ {a | a ∈ as}, cache.digest a ≠ DigestPtr.read cache.digest (.caller d) := by
      rintro a ha rfl
      exact hd (List.mem_map_of_mem ha)
    have hwf := h.setHt h.filed
    rw [h.filed.htGet_missing hnone, if_neg hd, List.length_map, h.count]
    simp only [Exec.ok_bind]
    by_cases hroom : cache.count < cache.size
    · obtain ⟨cache', a, hrun, hwf', hdigest, hdata, hsize⟩ := hwf.fill hroom hd thing
      have ha : a ∉ as := (List.nodup_cons.mp hwf'.links.nodup).1
      rw [if_pos hroom]
      refine ⟨none, cache', a :: as, ?_, hwf', hsize, ?_, by simp, fun _ => rfl,
        holds_update hd (fun _ => id) hdigest hdata⟩
      · have hcond : (cache.setHt cache.ht).count < (cache.setHt cache.ht).size := hroom
        rw [if_pos hcond, hrun]
        rfl
      · rw [hdigest, List.map_cons, Function.update_self]
        exact congrArg _ (map_update_of_notMem ha cache.digest d)
    · have hfull : cache.count = cache.size := le_antisymm h.size (not_lt.mp hroom)
      have hcond : ¬(cache.setHt cache.ht).count < (cache.setHt cache.ht).size := hroom
      rw [if_neg hroom, if_neg hcond]
      by_cases hzero : cache.size = 0
      · have htwo : ¬2 ≤ (cache.setHt cache.ht).size := by
          change ¬2 ≤ cache.size
          omega
        have hone : ¬(cache.setHt cache.ht).size = 1 := by
          change ¬cache.size = 1
          omega
        rw [if_pos hzero, if_neg htwo, if_neg hone]
        exact ⟨none, cache.setHt cache.ht, as, rfl, hwf, rfl, rfl, by simp, fun _ => rfl,
          fun a ha => .inr ⟨ha, rfl, rfl⟩⟩
      · have hne : as ≠ [] := by
          rintro rfl
          have := h.count
          simp at this
          omega
        obtain ⟨pre, o, rfl⟩ := (List.eq_nil_or_concat' as).resolve_left hne
        obtain ⟨cache', hrun, hwf', hdigest, hdata, hsize⟩ := hwf.replace hfull hd thing
        have ho : o ∉ pre := (List.nodup_cons.mp hwf'.links.nodup).1
        rw [if_neg hzero]
        refine ⟨cache.data o, cache', o :: pre, hrun, hwf', hsize, ?_, ?_, by simp,
          holds_update hd (fun _ => List.mem_append_left _) hdigest hdata⟩
        · rw [hdigest, List.map_cons, Function.update_self, List.map_append, List.map_singleton,
            List.dropLast_concat]
          exact congrArg _ (map_update_of_notMem ho cache.digest d)
        · intro a ha hlast
          simp only [List.map_append, List.map_singleton, List.getLast?_concat, Option.some_inj] at hlast
          rw [List.inj_on_of_nodup_map h.digests ha (by simp) hlast.symm]

/-! Runs -/

inductive Call (D : Type)
  | store (digest : Digest) (thing : Option D)
  | get (digest : Digest)

def perform (cache : LRUCache D) : Call D → Exec (Option D × LRUCache D)
  | .store digest thing => ZoweCommon.lruStore cache digest thing
  | .get digest => ZoweCommon.lruGet cache digest

def performAll (cache : LRUCache D) : List (Call D) → Exec (List (Option D) × LRUCache D)
  | [] => return ([], cache)
  | call :: calls => do
    let (result, cache) ← cache.perform call
    let (results, cache) ← cache.performAll calls
    return (result :: results, cache)

def Call.stored : Call D → Option Digest
  | .store digest _ => some digest
  | .get _ => none

/-- The digests stored by a run, the latest first: the larger the index of a digest, the
longer ago it was last stored. -/
def stores (calls : List (Call D)) : List Digest := (calls.filterMap Call.stored).reverse

theorem Wf.length_le (h : Wf cache as) : (as.map cache.digest).length ≤ cache.size := by
  rw [List.length_map, h.count]
  exact h.size

theorem Wf.perform (h : Wf cache as) {history : List Digest}
    (hord : Ordered history (as.map cache.digest)) (call : Call D) :
    ∃ result cache' as', cache.perform call = .ok (result, cache') ∧ Wf cache' as' ∧
      cache'.size = cache.size ∧ Ordered (stores [call] ++ history) (as'.map cache'.digest) := by
  cases call with
  | store d thing =>
    obtain ⟨r, cache', as', hrun, hwf, hsize, hdigests, -⟩ := h.lruStore d thing
    refine ⟨r, cache', as', hrun, hwf, hsize, ?_⟩
    rw [hdigests]
    exact hord.store h.digests h.length_le d
  | get d =>
    obtain ⟨r, cache', hrun, hwf, hdigest, hsize, -⟩ := h.lruGet d
    refine ⟨r, cache', as, hrun, hwf, hsize, ?_⟩
    rw [hdigest]
    exact hord

theorem Wf.performAll (calls : List (Call D)) : ∀ {cache : LRUCache D} {as : List ℕ}
    {history : List Digest}, Wf cache as → Ordered history (as.map cache.digest) →
    ∃ results cache' as', cache.performAll calls = .ok (results, cache') ∧ Wf cache' as' ∧
      cache'.size = cache.size ∧ Ordered (stores calls ++ history) (as'.map cache'.digest) := by
  induction calls with
  | nil =>
    intro cache as history h hord
    exact ⟨[], cache, as, rfl, h, rfl, hord⟩
  | cons call calls ih =>
    intro cache as history h hord
    obtain ⟨r, cache₁, as₁, hrun₁, hwf₁, hsize₁, hord₁⟩ := h.perform hord call
    obtain ⟨rs, cache₂, as₂, hrun₂, hwf₂, hsize₂, hord₂⟩ := ih hwf₁ hord₁
    refine ⟨r :: rs, cache₂, as₂, ?_, hwf₂, hsize₂.trans hsize₁, ?_⟩
    · simp [LRUCache.performAll, hrun₁, hrun₂]
    · have hstores : stores (call :: calls) = stores calls ++ stores [call] := by
        unfold stores
        rw [← List.singleton_append, List.filterMap_append, List.reverse_append]
      rw [hstores, List.append_assoc]
      exact hord₂

theorem wf_makeLRUCache {htMalloc safeMalloc : ℕ → ℕ} (size : ℕ)
    (hd : ∀ i j, i < j →
      htMalloc i + FixedBlockMgr.extentSize HASHENTRY_SIZE 256 ≤ htMalloc j ∨
      htMalloc j + FixedBlockMgr.extentSize HASHENTRY_SIZE 256 ≤ htMalloc i)
    (hinj : Function.Injective safeMalloc) :
    Wf (makeLRUCache (D := D) htMalloc safeMalloc size) [] where
  links := Linked.Doubly.nil
  count := rfl
  size := Nat.zero_le size
  filed := by
    have hempty : {e : DigestPtr × Option ℕ | ∃ a ∈ {a : ℕ | a ∈ ([] : List ℕ)},
        e = (.element a, some a)} = ∅ := by
      ext e
      simp
    refine ⟨?_, rfl, rfl, rfl, rfl, rfl⟩
    rw [hempty]
    exact represents_htAlter_htCreate (by decide) hd
  digests := List.nodup_nil
  allocated := by simp
  fresh := hinj

theorem Wf.lruStore_evicts (h : Wf cache as) {history : List Digest}
    (hord : Ordered history (as.map cache.digest)) (d : Digest) (thing : Option D) :
    ∃ decached cache' as', ZoweCommon.lruStore cache d thing = .ok (decached, cache') ∧
      Wf cache' as' ∧
      if d ∉ as.map cache.digest ∧ cache.count = cache.size ∧ 1 ≤ cache.size then
        ∃ o ∈ as, (∀ a ∈ as, a ≠ o → history.idxOf (cache.digest a) < history.idxOf (cache.digest o)) ∧
          decached = cache.data o ∧
          ∀ k, k ∈ as'.map cache'.digest ↔
            k = d ∨ k ∈ as.map cache.digest ∧ k ≠ cache.digest o
      else decached = none ∧ ∀ k ∈ as.map cache.digest, k ∈ as'.map cache'.digest := by
  obtain ⟨decached, cache', as', hrun, hwf, -, hdigests, hout, hnone, -⟩ := h.lruStore d thing
  refine ⟨decached, cache', as', hrun, hwf, ?_⟩
  split_ifs with hcond
  · obtain ⟨hd, hfull, hpos⟩ := hcond
    have hne : as ≠ [] := by
      rintro rfl
      have := h.count
      simp at this
      omega
    obtain ⟨pre, o, rfl⟩ := (List.eq_nil_or_concat' as).resolve_left hne
    have hstore : Recency.store cache.size d ((pre ++ [o]).map cache.digest) =
        (d :: pre.map cache.digest, some (cache.digest o)) := by
      have hlen : ¬((pre ++ [o]).map cache.digest).length < cache.size := by
        rw [List.length_map, h.count]
        omega
      unfold Recency.store
      rw [if_neg hd, if_neg hlen, if_neg (by omega)]
      simp
    rw [hstore] at hdigests hout
    have hnodup := h.digests
    rw [List.map_append, List.map_singleton] at hnodup hord
    have ho := (List.nodup_append.mp hnodup).2.2
    refine ⟨o, by simp, fun a ha hao => ?_, hout o (by simp) rfl, fun k => ?_⟩
    · have ha : a ∈ pre := by simpa [hao] using ha
      exact hord.oldest (List.mem_map_of_mem ha)
    · rw [hdigests, List.mem_cons, List.map_append, List.map_singleton, List.mem_append,
        List.mem_singleton]
      constructor
      · rintro (rfl | hk)
        · exact .inl rfl
        · exact .inr ⟨.inl hk, ho k hk _ (List.mem_singleton_self _)⟩
      · rintro (rfl | ⟨hk | rfl, hne⟩)
        · exact .inl rfl
        · exact .inr hk
        · exact absurd rfl hne
  · have hstay : (Recency.store cache.size d (as.map cache.digest)).2 = none ∧
        ∀ k ∈ as.map cache.digest,
          k ∈ (Recency.store cache.size d (as.map cache.digest)).1 := by
      have hkept : (Recency.store cache.size d (as.map cache.digest)).2 = none := by
        unfold Recency.store
        split_ifs with hd hroom hzero
        · rfl
        · rfl
        · rfl
        · rw [List.length_map, h.count] at hroom
          have := h.size
          exact absurd ⟨hd, by omega, by omega⟩ hcond
      refine ⟨hkept, fun k hk => (Recency.mem_store_or d hk).resolve_right ?_⟩
      rw [hkept]
      simp
    rw [hdigests]
    exact ⟨hnone hstay.1, hstay.2⟩

/-- Every run from a new cache ends with a well-formed cache, from which a store evicts the
digest stored longest ago if the cache is full and the digest new to it, and nothing otherwise. -/
theorem performAll_makeLRUCache (htMalloc safeMalloc : ℕ → ℕ) (size : ℕ) (calls : List (Call D))
    (hd : ∀ i j, i < j →
      htMalloc i + FixedBlockMgr.extentSize HASHENTRY_SIZE 256 ≤ htMalloc j ∨
      htMalloc j + FixedBlockMgr.extentSize HASHENTRY_SIZE 256 ≤ htMalloc i)
    (hinj : Function.Injective safeMalloc) :
    ∃ results cache as, (makeLRUCache htMalloc safeMalloc size).performAll calls =
        .ok (results, cache) ∧
      Wf cache as ∧ as.Nodup ∧ cache.size = size ∧ (∀ a ∈ as, cache.digest a ∈ stores calls) ∧
      ∀ d thing, ∃ decached cache' as', ZoweCommon.lruStore cache d thing = .ok (decached, cache') ∧
        Wf cache' as' ∧
        if d ∉ as.map cache.digest ∧ cache.count = cache.size ∧ 1 ≤ cache.size then
          ∃ o ∈ as, (∀ a ∈ as, a ≠ o →
              (stores calls).idxOf (cache.digest a) < (stores calls).idxOf (cache.digest o)) ∧
            decached = cache.data o ∧
            ∀ k, k ∈ as'.map cache'.digest ↔
              k = d ∨ k ∈ as.map cache.digest ∧ k ≠ cache.digest o
        else decached = none ∧ ∀ k ∈ as.map cache.digest, k ∈ as'.map cache'.digest := by
  have hnew := wf_makeLRUCache (D := D) size hd hinj
  obtain ⟨results, cache, as, hrun, hwf, hsize, hord⟩ := Wf.performAll calls hnew Ordered.nil
  rw [List.append_nil] at hord
  have hstored : ∀ a ∈ as, cache.digest a ∈ stores calls :=
    fun a ha => hord.mem _ (List.mem_map_of_mem ha)
  exact ⟨results, cache, as, hrun, hwf, hwf.links.nodup, hsize, hstored, hwf.lruStore_evicts hord⟩

/-- A cache of two into which two digests were stored, and the first of them once more. -/
theorem performAll_makeLRUCache_two :
    let d₁ : Digest := Vector.replicate 16 1
    let d₂ : Digest := Vector.replicate 16 2
    let calls : List (Call ℕ) := [.store d₁ (some 7), .store d₂ (some 8), .store d₁ none, .get d₁]
    ∃ results cache as, (makeLRUCache (fun i => i * 10000) id 2).performAll calls =
        .ok (results, cache) ∧
      Wf cache as ∧ as.Nodup ∧ cache.size = 2 ∧ (∀ a ∈ as, cache.digest a ∈ stores calls) ∧
      ∀ d thing, ∃ decached cache' as', ZoweCommon.lruStore cache d thing = .ok (decached, cache') ∧
        Wf cache' as' ∧
        if d ∉ as.map cache.digest ∧ cache.count = cache.size ∧ 1 ≤ cache.size then
          ∃ o ∈ as, (∀ a ∈ as, a ≠ o →
              (stores calls).idxOf (cache.digest a) < (stores calls).idxOf (cache.digest o)) ∧
            decached = cache.data o ∧
            ∀ k, k ∈ as'.map cache'.digest ↔
              k = d ∨ k ∈ as.map cache.digest ∧ k ≠ cache.digest o
        else decached = none ∧ ∀ k ∈ as.map cache.digest, k ∈ as'.map cache'.digest := by
  intro d₁ d₂ calls
  exact performAll_makeLRUCache (fun i => i * 10000) id 2 calls Hashtable.extents_apart
    Function.injective_id

end LRUCache
end ZoweCommon
