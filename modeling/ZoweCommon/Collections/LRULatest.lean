import ZoweCommon.Collections.LRUEviction

/-! What a lookup finds after a store: the thing stored, unless the digest was in the cache
already, for then the element moves to the front and keeps its data. -/
namespace ZoweCommon
namespace LRUCache

variable {D : Type} {cache : LRUCache D} {as : List ℕ}

theorem Wf.unique {bs : List ℕ} (ha : Wf cache as) (hb : Wf cache bs) : as = bs :=
  ha.links.down_chain.unique hb.links.down_chain

/-- A call other than a store of `d` leaves what is cached under `d` as it was. -/
theorem Wf.perform_holds (h : Wf cache as) {d : Digest} {call : Call D} (hcall : call.stored ≠ some d) :
    ∃ result cache' as', cache.perform call = .ok (result, cache') ∧ Wf cache' as' ∧
      ∀ a ∈ as', cache'.digest a = d → a ∈ as ∧ cache.digest a = d ∧ cache'.data a = cache.data a := by
  cases call with
  | store k thing =>
    obtain ⟨r, cache', as', hrun, hwf, -, -, -, -, hholds⟩ := h.lruStore k thing
    refine ⟨r, cache', as', hrun, hwf, fun a ha had => ?_⟩
    rcases hholds a ha with ⟨-, hk, -⟩ | ⟨hmem, hdigest, hdata⟩
    · have heq : k = d := hk.symm.trans had
      exact absurd (congrArg some heq) hcall
    · exact ⟨hmem, hdigest.symm.trans had, hdata⟩
  | get k =>
    obtain ⟨r, cache', hrun, hwf, hdigest, -⟩ := h.lruGet k
    have hdata : cache'.data = cache.data := by
      have hrun : ZoweCommon.lruGet cache k = .ok (r, cache') := hrun
      unfold ZoweCommon.lruGet at hrun
      obtain ⟨⟨element, ht⟩, -, hrest⟩ := Exec.bind_eq_ok.mp hrun
      cases element with
      | none => cases hrest; rfl
      | some element => cases hrest; rfl
    refine ⟨r, cache', as, hrun, hwf, fun a ha had => ⟨ha, ?_, congrFun hdata a⟩⟩
    rw [← hdigest]
    exact had

/-- Nor does a run without a store of `d`. -/
theorem Wf.performAll_holds {d : Digest} (calls : List (Call D)) : ∀ {cache : LRUCache D}
    {as : List ℕ}, Wf cache as → d ∉ stores calls →
    ∃ results cache' as', cache.performAll calls = .ok (results, cache') ∧ Wf cache' as' ∧
      ∀ a ∈ as', cache'.digest a = d → a ∈ as ∧ cache.digest a = d ∧ cache'.data a = cache.data a := by
  induction calls with
  | nil =>
    intro cache as h _
    exact ⟨[], cache, as, rfl, h, fun a ha had => ⟨ha, had, rfl⟩⟩
  | cons call calls ih =>
    intro cache as h hstores
    unfold stores at hstores
    have hcall : call.stored ≠ some d := by
      intro heq
      apply hstores
      rw [List.mem_reverse, List.mem_filterMap]
      exact ⟨call, List.mem_cons_self, heq⟩
    have hcalls : d ∉ stores calls := by
      intro hmem
      apply hstores
      unfold stores at hmem
      rw [List.mem_reverse, List.mem_filterMap] at hmem ⊢
      obtain ⟨other, hother, heq⟩ := hmem
      exact ⟨other, List.mem_cons_of_mem _ hother, heq⟩
    obtain ⟨r, cache₁, as₁, hrun₁, hwf₁, hkept₁⟩ := h.perform_holds hcall
    obtain ⟨rs, cache₂, as₂, hrun₂, hwf₂, hkept₂⟩ := ih hwf₁ hcalls
    refine ⟨r :: rs, cache₂, as₂, ?_, hwf₂, fun a ha had => ?_⟩
    · simp [LRUCache.performAll, hrun₁, hrun₂]
    · obtain ⟨ha₁, had₁, hdata₁⟩ := hkept₂ a ha had
      obtain ⟨ha₀, had₀, hdata₀⟩ := hkept₁ a ha₁ had₁
      exact ⟨ha₀, had₀, hdata₁.trans hdata₀⟩

/-- The digest is in the cache after a store, a lookup of it gives the thing stored until it is
evicted or stored again, and the data that the store replaces or evicts are handed back. -/
structure StoreLaw (cache : LRUCache D) (as : List ℕ) (d : Digest) (thing : Option D)
    (decached : Option D) (cache' : LRUCache D) (as' : List ℕ) : Prop where
  present : d ∈ as'.map cache'.digest
  latest : ∀ later results cache'' as'', d ∉ stores later →
    cache'.performAll later = .ok (results, cache'') → Wf cache'' as'' →
    d ∈ as''.map cache''.digest → ∃ after, ZoweCommon.lruGet cache'' d = .ok (thing, after)
  handedBack : ∀ a ∈ as, cache.digest a = d ∧ cache.data a ≠ thing ∨
    cache.digest a ∉ as'.map cache'.digest → decached = cache.data a

/-- The law holds unless the digest is in the cache with something else. -/
theorem Wf.lruStore_storeLaw (h : Wf cache as) (hsize : 1 ≤ cache.size) (d : Digest)
    (thing : Option D) :
    ∃ decached cache' as', ZoweCommon.lruStore cache d thing = .ok (decached, cache') ∧
      Wf cache' as' ∧
      (StoreLaw cache as d thing decached cache' as' ↔
        ∀ a ∈ as, cache.digest a = d → cache.data a = thing) := by
  obtain ⟨decached, cache', as', hrun, hwf, -, hdigests, hout, hnone, hholds⟩ := h.lruStore d thing
  have hpresent : d ∈ as'.map cache'.digest := by
    rw [hdigests]
    exact Recency.mem_store hsize d _
  refine ⟨decached, cache', as', hrun, hwf, ?_, ?_⟩
  · intro hlaw a ha had
    have hcached : d ∈ as.map cache.digest := had ▸ List.mem_map_of_mem ha
    obtain ⟨after, hget⟩ := hlaw.latest [] [] cache' as' (by simp [stores]) rfl hwf hpresent
    obtain ⟨r, after', hget', -, -, -, hfound, -⟩ := hwf.lruGet d
    rw [hget] at hget'
    cases hget'
    obtain ⟨b, hb, hbd⟩ := List.mem_map.mp hpresent
    rcases hholds b hb with ⟨hnew, -, -⟩ | ⟨hmem, hdigest, hkept⟩
    · exact absurd hcached hnew
    · have hba : cache.digest b = cache.digest a := hdigest.symm.trans (hbd.trans had.symm)
      rw [hfound b hb hbd, hkept, List.inj_on_of_nodup_map h.digests hmem ha hba]
  · intro hcond
    refine ⟨hpresent, ?_, ?_⟩
    · intro later results cache'' as'' hlater hrun' hwf'' hstill
      obtain ⟨_, _, bs, hrun'', hwfb, hkept⟩ := Wf.performAll_holds later hwf hlater
      rw [hrun'] at hrun''
      cases hrun''
      cases hwfb.unique hwf''
      obtain ⟨r, after, hget, -, -, -, hfound, -⟩ := hwf''.lruGet d
      obtain ⟨b, hb, hbd⟩ := List.mem_map.mp hstill
      obtain ⟨hb', hbd', hdata⟩ := hkept b hb hbd
      have hthing : cache'.data b = thing := by
        rcases hholds b hb' with ⟨-, -, hthing⟩ | ⟨hmem, hdigest, hdata'⟩
        · exact hthing
        · rw [hdata', hcond b hmem (hdigest.symm.trans hbd')]
      refine ⟨after, ?_⟩
      rw [hget, hfound b hb hbd, hdata, hthing]
    · intro a ha hor
      rcases hor with ⟨had, hne⟩ | hgone
      · exact absurd (hcond a ha had) hne
      · rw [hdigests] at hgone
        exact hout a ha ((Recency.mem_store_or d (List.mem_map_of_mem ha)).resolve_left hgone)

/-- In every cache a run can lead to, the law of a store holds just when the digest is new to
the cache or the thing is what the cache holds under it. -/
theorem lruStore_storeLaw_iff (htMalloc safeMalloc : ℕ → ℕ) (size : ℕ) (calls : List (Call D))
    (hd : ∀ i j, i < j →
      htMalloc i + FixedBlockMgr.extentSize HASHENTRY_SIZE 256 ≤ htMalloc j ∨
      htMalloc j + FixedBlockMgr.extentSize HASHENTRY_SIZE 256 ≤ htMalloc i)
    (hinj : Function.Injective safeMalloc) (hsize : 1 ≤ size) :
    ∃ results cache as, (makeLRUCache htMalloc safeMalloc size).performAll calls =
        .ok (results, cache) ∧ Wf cache as ∧
      ∀ d thing, ∃ decached cache' as', ZoweCommon.lruStore cache d thing = .ok (decached, cache') ∧
        Wf cache' as' ∧
        (StoreLaw cache as d thing decached cache' as' ↔
          ∀ a ∈ as, cache.digest a = d → cache.data a = thing) := by
  have hnew := wf_makeLRUCache (D := D) size hd hinj
  obtain ⟨results, cache, as, hrun, hwf, hsame, -⟩ := Wf.performAll calls hnew (@Recency.Ordered.nil _ _ [])
  refine ⟨results, cache, as, hrun, hwf, hwf.lruStore_storeLaw ?_⟩
  rw [hsame]
  exact hsize

theorem lruStore_storeLaw_iff_one :
    let d : Digest := Vector.replicate 16 1
    ∃ results cache as, (makeLRUCache (fun i => i * 10000) id 1).performAll [.store d (some 7)] =
        .ok (results, cache) ∧ Wf cache as ∧
      ∀ k thing, ∃ decached cache' as', ZoweCommon.lruStore cache k thing = .ok (decached, cache') ∧
        Wf cache' as' ∧
        (StoreLaw cache as k thing decached cache' as' ↔
          ∀ a ∈ as, cache.digest a = k → cache.data a = thing) := by
  intro d
  exact lruStore_storeLaw_iff (fun i => i * 10000) id 1 [.store d (some 7)] Hashtable.extents_apart
    Function.injective_id le_rfl

/-- A digest stored twice with different things: the lookup still gives the first. -/
theorem not_storeLaw_restored :
    let d : Digest := Vector.replicate 16 1
    ∃ results cache as decached cache' as',
      (makeLRUCache (fun i => i * 10000) id 2).performAll [.store d (some 7)] = .ok (results, cache) ∧
      Wf cache as ∧ ZoweCommon.lruStore cache d (some 8) = .ok (decached, cache') ∧ Wf cache' as' ∧
      ¬StoreLaw cache as d (some 8) decached cache' as' := by
  intro d
  have hnew := wf_makeLRUCache (D := ℕ) 2 Hashtable.extents_apart Function.injective_id
  obtain ⟨out, cache, as, hstore, hwf, hsize, hdigests, -, -, hholds⟩ := hnew.lruStore d (some 7)
  have hpos : 1 ≤ cache.size := hsize.ge.trans' (by decide)
  obtain ⟨decached, cache', as', hstore', hwf', hiff⟩ := hwf.lruStore_storeLaw hpos d (some 8)
  refine ⟨[out], cache, as, decached, cache', as', ?_, hwf, hstore', hwf', fun hlaw => ?_⟩
  · simp only [LRUCache.performAll, perform, hstore, Exec.ok_bind, Exec.pure_eq_ok]
  · have hcached : d ∈ as.map cache.digest := by
      rw [hdigests]
      exact List.mem_cons_self
    obtain ⟨a, ha, had⟩ := List.mem_map.mp hcached
    have height := hiff.mp hlaw a ha had
    rcases hholds a ha with ⟨-, -, hseven⟩ | ⟨hold, -⟩
    · rw [hseven] at height
      simp at height
    · simp at hold

end LRUCache
end ZoweCommon
