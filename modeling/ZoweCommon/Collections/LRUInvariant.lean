import ZoweCommon.Lib.DoublyLinked
import ZoweCommon.Collections.LRUCache
import ZoweCommon.Collections.HashtableSpec

/-! The structural invariant of the LRU cache, kept by every way a store can go. -/
namespace ZoweCommon

open Linked Hashtable

variable {D : Type}

/-- The table files each address of `A` under the digest field of that element, and
holds nothing else. -/
structure Filed (digests : ℕ → Digest) (ht : Hashtable (ℕ → Digest) DigestPtr ℕ) (A : Set ℕ) :
    Prop where
  represents : Represents digests ht {e | ∃ a ∈ A, e = (.element a, some a)}
  hashFunction : ht.hashFunction = some digestHash
  comparator : ht.comparator = some digestCompare
  keepEntry : ht.keepEntry = none
  entryExpired : ht.entryExpired = none
  removeEntry : ht.removeEntry = none

namespace Filed

variable {digests digests' : ℕ → Digest} {ht ht' : Hashtable (ℕ → Digest) DigestPtr ℕ} {A : Set ℕ}

theorem sameSetup (h : Filed digests ht A) (hset : SameSetup ht ht') {B : Set ℕ}
    (hrep : Represents digests ht' {e | ∃ a ∈ B, e = (.element a, some a)}) :
    Filed digests ht' B where
  represents := hrep
  hashFunction := hset.hashFunction.trans h.hashFunction
  comparator := hset.comparator.trans h.comparator
  keepEntry := hset.keepEntry.trans h.keepEntry
  entryExpired := hset.entryExpired.trans h.entryExpired
  removeEntry := hset.removeEntry.trans h.removeEntry

theorem compare_eq (h : Filed digests ht A) (k l : DigestPtr) :
    ht.compare digests' k l = (k.read digests' == l.read digests') := by
  unfold Hashtable.compare
  rw [h.comparator]
  rfl

theorem coherent (h : Filed digests ht A) : Coherent digests' ht where
  equivalence := by
    simp only [h.compare_eq, beq_iff_eq]
    exact ⟨fun _ => rfl, Eq.symm, Eq.trans⟩
  hashcode k l hkl := by
    rw [h.compare_eq, beq_iff_eq] at hkl
    unfold Hashtable.hashcode
    rw [h.hashFunction]
    simp only [digestHash, hkl]

/-- The elements may change as long as the digests of those filed do not. -/
theorem of_digests (h : Filed digests ht A) (hsame : ∀ a ∈ A, digests' a = digests a) :
    Filed digests' ht A where
  represents := by
    apply h.represents.of_memory
    · rintro _ ⟨a, ha, rfl⟩
      unfold Hashtable.hashcode
      rw [h.hashFunction]
      simp only [digestHash, DigestPtr.read, hsame a ha]
    · rintro _ ⟨a, ha, rfl⟩ _ ⟨b, hb, rfl⟩
      simp only [h.compare_eq, DigestPtr.read, hsame a ha, hsame b hb]
  hashFunction := h.hashFunction
  comparator := h.comparator
  keepEntry := h.keepEntry
  entryExpired := h.entryExpired
  removeEntry := h.removeEntry

theorem missing (h : Filed digests ht A) (key : DigestPtr)
    (hnone : ∀ a ∈ A, digests a ≠ key.read digests) :
    ∀ e ∈ {e : DigestPtr × Option ℕ | ∃ a ∈ A, e = (.element a, some a)},
      ht.compare digests e.1 key = false := by
  rintro _ ⟨a, ha, rfl⟩
  rw [h.compare_eq]
  exact beq_eq_false_iff_ne.mpr (hnone a ha)

theorem htGet_found (h : Filed digests ht A) {a : ℕ} (key : DigestPtr) (ha : a ∈ A)
    (hd : digests a = key.read digests) :
    ∃ ht', htGet digests ht key = .ok (some a, ht') ∧ Filed digests ht' A := by
  have hcmp : ht.compare digests (.element a) key = true := by
    rw [h.compare_eq, beq_iff_eq]
    exact hd
  obtain ⟨ht', hrun, hset, hrep⟩ := h.represents.htGet_found h.coherent ⟨a, ha, rfl⟩ hcmp
  have hkeep : ¬ht.drops digests (some a) = true := by
    unfold drops
    simp [h.entryExpired, h.removeEntry]
  rw [if_neg hkeep] at hrep
  rw [h.entryExpired] at hrun
  exact ⟨ht', hrun, h.sameSetup hset hrep⟩

theorem htGet_missing (h : Filed digests ht A) {key : DigestPtr}
    (hnone : ∀ a ∈ A, digests a ≠ key.read digests) :
    htGet digests ht key = .ok (none, ht) :=
  h.represents.htGet_missing (h.missing key hnone)

theorem htRemove_found (h : Filed digests ht A) {a : ℕ} (ha : a ∈ A) :
    ∃ ht' n, htRemove digests ht (.element a) = .ok (n, ht') ∧
      Filed digests ht' {b ∈ A | digests b ≠ digests a} := by
  have hcmp : ht.compare digests (.element a) (.element a) = true := by
    rw [h.compare_eq, beq_iff_eq]
  obtain ⟨ht', hrun, hset, hrep⟩ := h.represents.htRemove_found h.coherent ⟨a, ha, rfl⟩ hcmp
  refine ⟨ht', 1, hrun, h.sameSetup hset ?_⟩
  convert hrep using 1
  ext e
  constructor
  · rintro ⟨b, ⟨hb, hne⟩, rfl⟩
    refine ⟨⟨b, hb, rfl⟩, ?_⟩
    rw [h.compare_eq]
    exact beq_eq_false_iff_ne.mpr hne
  · rintro ⟨⟨b, hb, rfl⟩, hcb⟩
    rw [h.compare_eq] at hcb
    exact ⟨b, ⟨hb, beq_eq_false_iff_ne.mp hcb⟩, rfl⟩

theorem htPut_new (h : Filed digests ht A) {a : ℕ} (hnone : ∀ b ∈ A, digests b ≠ digests a) :
    ∃ ht' n, htPut digests ht (.element a) (some a) = .ok (n, ht') ∧
      Filed digests ht' (insert a A) := by
  obtain ⟨ht', hrun, hset, hrep⟩ :=
    h.represents.htPut_missing h.coherent (h.missing (.element a) hnone) (some a)
  refine ⟨ht', 0, hrun, h.sameSetup hset ?_⟩
  convert hrep using 1
  ext e
  simp only [Set.mem_insert_iff, Set.mem_ofPred_eq, exists_eq_or_imp]

theorem htPut_renamed (h : Filed digests ht A) {a : ℕ} {d : Digest} (ha : a ∉ A)
    (hd : ∀ b ∈ A, digests b ≠ d) :
    ∃ ht' n, htPut (Function.update digests a d) ht (.element a) (some a) = .ok (n, ht') ∧
      Filed (Function.update digests a d) ht' (insert a A) := by
  have hsame : ∀ b ∈ A, Function.update digests a d b = digests b := by
    intro b hb
    apply Function.update_of_ne
    rintro rfl
    exact ha hb
  apply (h.of_digests hsame).htPut_new
  intro b hb
  rw [hsame b hb, Function.update_self]
  exact hd b hb

end Filed

namespace LRUCache

variable {cache : LRUCache D} {as : List ℕ}

@[simp] theorem newer_setNewer (a : ℕ) (p : Option ℕ) :
    (cache.setNewer a p).newer = Function.update cache.newer a p :=
  Function.comp_update ..

@[simp] theorem older_setNewer (a : ℕ) (p : Option ℕ) :
    (cache.setNewer a p).older = cache.older :=
  (Function.comp_update ..).trans (Function.update_eq_self ..)

@[simp] theorem digest_setNewer (a : ℕ) (p : Option ℕ) :
    (cache.setNewer a p).digest = cache.digest :=
  (Function.comp_update ..).trans (Function.update_eq_self ..)

@[simp] theorem data_setNewer (a : ℕ) (p : Option ℕ) :
    (cache.setNewer a p).data = cache.data :=
  (Function.comp_update ..).trans (Function.update_eq_self ..)

@[simp] theorem older_setOlder (a : ℕ) (p : Option ℕ) :
    (cache.setOlder a p).older = Function.update cache.older a p :=
  Function.comp_update ..

@[simp] theorem newer_setOlder (a : ℕ) (p : Option ℕ) :
    (cache.setOlder a p).newer = cache.newer :=
  (Function.comp_update ..).trans (Function.update_eq_self ..)

@[simp] theorem digest_setOlder (a : ℕ) (p : Option ℕ) :
    (cache.setOlder a p).digest = cache.digest :=
  (Function.comp_update ..).trans (Function.update_eq_self ..)

@[simp] theorem data_setOlder (a : ℕ) (p : Option ℕ) :
    (cache.setOlder a p).data = cache.data :=
  (Function.comp_update ..).trans (Function.update_eq_self ..)

@[simp] theorem digest_setContent (a : ℕ) (d : Digest) (t : Option D) :
    (cache.setContent a d t).digest = Function.update cache.digest a d :=
  Function.comp_update ..

@[simp] theorem data_setContent (a : ℕ) (d : Digest) (t : Option D) :
    (cache.setContent a d t).data = Function.update cache.data a t :=
  Function.comp_update ..

@[simp] theorem newer_setContent (a : ℕ) (d : Digest) (t : Option D) :
    (cache.setContent a d t).newer = cache.newer :=
  (Function.comp_update ..).trans (Function.update_eq_self ..)

@[simp] theorem older_setContent (a : ℕ) (d : Digest) (t : Option D) :
    (cache.setContent a d t).older = cache.older :=
  (Function.comp_update ..).trans (Function.update_eq_self ..)

@[simp] theorem newer_setNewest (p : Option ℕ) :
    (cache.setNewest p).newer = cache.newer := rfl

@[simp] theorem older_setNewest (p : Option ℕ) :
    (cache.setNewest p).older = cache.older := rfl

@[simp] theorem newer_setOldest (p : Option ℕ) :
    (cache.setOldest p).newer = cache.newer := rfl

@[simp] theorem older_setOldest (p : Option ℕ) :
    (cache.setOldest p).older = cache.older := rfl

@[simp] theorem newest_setNewer (a : ℕ) (p : Option ℕ) : (cache.setNewer a p).newest = cache.newest :=
  rfl

@[simp] theorem newest_setOlder (a : ℕ) (p : Option ℕ) : (cache.setOlder a p).newest = cache.newest :=
  rfl

@[simp] theorem oldest_setNewer (a : ℕ) (p : Option ℕ) : (cache.setNewer a p).oldest = cache.oldest :=
  rfl

@[simp] theorem oldest_setOlder (a : ℕ) (p : Option ℕ) : (cache.setOlder a p).oldest = cache.oldest :=
  rfl

@[simp] theorem newest_setNewest (p : Option ℕ) : (cache.setNewest p).newest = p := rfl

@[simp] theorem oldest_setNewest (p : Option ℕ) : (cache.setNewest p).oldest = cache.oldest := rfl

@[simp] theorem newest_setOldest (p : Option ℕ) : (cache.setOldest p).newest = cache.newest := rfl

@[simp] theorem oldest_setOldest (p : Option ℕ) : (cache.setOldest p).oldest = p := rfl

@[simp] theorem newer_setHt (ht : Hashtable (ℕ → Digest) DigestPtr ℕ) :
    (cache.setHt ht).newer = cache.newer := rfl

@[simp] theorem older_setHt (ht : Hashtable (ℕ → Digest) DigestPtr ℕ) :
    (cache.setHt ht).older = cache.older := rfl

@[simp] theorem digest_setHt (ht : Hashtable (ℕ → Digest) DigestPtr ℕ) :
    (cache.setHt ht).digest = cache.digest := rfl

@[simp] theorem newest_setHt (ht : Hashtable (ℕ → Digest) DigestPtr ℕ) :
    (cache.setHt ht).newest = cache.newest := rfl

@[simp] theorem ht_setHt (ht : Hashtable (ℕ → Digest) DigestPtr ℕ) : (cache.setHt ht).ht = ht := rfl

@[simp] theorem newest_setContent (a : ℕ) (d : Digest) (t : Option D) :
    (cache.setContent a d t).newest = cache.newest := rfl

/-- At most the links and the ends of the list differ. -/
structure Relinked (cache cache' : LRUCache D) : Prop where
  digest : cache'.digest = cache.digest
  data : cache'.data = cache.data
  count : cache'.count = cache.count
  size : cache'.size = cache.size
  ht : cache'.ht = cache.ht
  allocated : cache'.allocated = cache.allocated
  safeMalloc : cache'.safeMalloc = cache.safeMalloc

namespace Relinked

variable {cache' : LRUCache D}

theorem refl (cache : LRUCache D) : Relinked cache cache := ⟨rfl, rfl, rfl, rfl, rfl, rfl, rfl⟩

theorem setNewer (h : Relinked cache cache') (a : ℕ) (p : Option ℕ) :
    Relinked cache (cache'.setNewer a p) :=
  ⟨(digest_setNewer a p).trans h.digest, (data_setNewer a p).trans h.data, h.count, h.size, h.ht,
    h.allocated, h.safeMalloc⟩

theorem setOlder (h : Relinked cache cache') (a : ℕ) (p : Option ℕ) :
    Relinked cache (cache'.setOlder a p) :=
  ⟨(digest_setOlder a p).trans h.digest, (data_setOlder a p).trans h.data, h.count, h.size, h.ht,
    h.allocated, h.safeMalloc⟩

theorem setNewest (h : Relinked cache cache') (p : Option ℕ) :
    Relinked cache (cache'.setNewest p) :=
  ⟨h.digest, h.data, h.count, h.size, h.ht, h.allocated, h.safeMalloc⟩

theorem setOldest (h : Relinked cache cache') (p : Option ℕ) :
    Relinked cache (cache'.setOldest p) :=
  ⟨h.digest, h.data, h.count, h.size, h.ht, h.allocated, h.safeMalloc⟩

end Relinked

/-- The recency list runs both ways through the elements of `as`, newest first, and the
table holds exactly these, each under its own digest. -/
structure Wf (cache : LRUCache D) (as : List ℕ) : Prop where
  links : Doubly cache.older cache.newer cache.newest cache.oldest as
  count : as.length = cache.count
  size : cache.count ≤ cache.size
  filed : Filed cache.digest cache.ht {a | a ∈ as}
  digests : (as.map cache.digest).Nodup
  allocated : ∀ a ∈ as, ∃ n < cache.allocated, a = cache.safeMalloc n
  fresh : Function.Injective cache.safeMalloc

theorem Wf.digest_ne (h : Wf cache as) {a b : ℕ} (ha : a ∈ as) (hb : b ∈ as) (hab : a ≠ b) :
    cache.digest a ≠ cache.digest b := fun heq => hab (List.inj_on_of_nodup_map h.digests ha hb heq)

theorem Wf.newest_eq (h : Wf cache as) {e : ℕ} (he : e ∈ as) : ∃ n, cache.newest = some n := by
  have hhead := h.links.head?_eq
  cases as with
  | nil => simp at he
  | cons n as => exact ⟨n, hhead.symm⟩

/-- The table and the elements' contents stay valid while the list is relinked. -/
theorem Wf.relink (h : Wf cache as) {cache' : LRUCache D} {as' : List ℕ} (hperm : as'.Perm as)
    (hlinks : Doubly cache'.older cache'.newer cache'.newest cache'.oldest as')
    (hrest : Relinked cache cache') : Wf cache' as' := by
  constructor
  · exact hlinks
  · rw [hperm.length_eq, h.count, hrest.count]
  · rw [hrest.count, hrest.size]
    exact h.size
  · have hset : {a | a ∈ as'} = {a | a ∈ as} := by
      ext a
      exact hperm.mem_iff
    rw [hrest.digest, hrest.ht, hset]
    exact h.filed
  · rw [hrest.digest]
    exact (hperm.map cache.digest).nodup_iff.mpr h.digests
  · intro a ha
    rw [hrest.allocated, hrest.safeMalloc]
    exact h.allocated a (hperm.mem_iff.mp ha)
  · rw [hrest.safeMalloc]
    exact h.fresh

/-- The oldest element goes to the front; the one before it becomes the oldest. -/
theorem Wf.recache_oldest (h : Wf cache as) {e : ℕ} (hnew : cache.newest ≠ some e)
    (hold : cache.oldest = some e) :
    ∃ cache', cache.recache e = .ok cache' ∧ Wf cache' (e :: as.erase e) ∧
      Relinked cache cache' := by
  have hlast := h.links.getLast?_eq
  rw [hold] at hlast
  obtain ⟨front, rfl⟩ := List.getLast?_eq_some_iff.mp hlast
  rcases List.eq_nil_or_concat' front with rfl | ⟨pre, o, rfl⟩
  · exact absurd h.links.head?_eq.symm hnew
  have hlinks := h.links
  simp only [List.append_assoc, List.singleton_append] at hlinks
  obtain ⟨hcut, hup⟩ := hlinks.dropBack
  obtain ⟨n, hn⟩ := h.newest_eq (List.mem_append_right _ (List.mem_singleton_self e))
  have hnodup := h.links.nodup
  have he : e ∉ pre ++ [o] := by
    rw [List.nodup_append] at hnodup
    intro hmem
    exact hnodup.2.2 e hmem e (List.mem_singleton_self e) rfl
  have heo : e ≠ o := by
    rintro rfl
    exact he (by simp)
  have hfront : (if cache.count = 2 then some o else cache.newest) = some n := by
    split_ifs with hc
    · -- with two elements the one before the oldest is the newest
      have hlen := h.count
      simp only [List.length_append, List.length_singleton, hc] at hlen
      obtain rfl : pre = [] := List.length_eq_zero_iff.mp (by omega)
      have hhead := h.links.head?_eq
      rw [hn] at hhead
      exact hhead
    · exact hn
  have herase : (pre ++ [o] ++ [e]).erase e = pre ++ [o] := by
    rw [List.erase_append_right _ he]
    simp
  have hpush := hcut.push he hn
  rw [herase]
  let cache' := (((((cache.setNewer e none).setNewer n (some e)).setOlder e cache.newest).setOlder o
    none).setOldest (some o)).setNewest (some e)
  have hrelinked : Relinked cache cache' :=
    (((((Relinked.refl cache).setNewer e none).setNewer n (some e)).setOlder e _).setOlder o
      none).setOldest (some o) |>.setNewest (some e)
  refine ⟨cache', ?_, h.relink ?_ ?_ hrelinked, hrelinked⟩
  · have hcond : cache.newer e = some o := hup
    have hcount : ((cache.setNewer e none).count = 2) = (cache.count = 2) := rfl
    unfold LRUCache.recache
    rw [if_neg hnew, if_pos hold]
    simp only [hcond, hcount, newest_setNewer, hfront]
    rfl
  · exact (List.perm_append_singleton e (pre ++ [o])).symm
  · simp only [cache', older_setOlder, older_setNewer, newer_setOlder, newer_setNewer,
      older_setOldest, older_setNewest, newer_setOldest, newer_setNewest, newest_setNewest,
      oldest_setNewest, oldest_setOldest]
    rw [Function.update_comm heo]
    exact hpush

/-- An element between two others goes to the front. -/
theorem Wf.recache_middle (h : Wf cache as) {e : ℕ} (he : e ∈ as) (hnew : cache.newest ≠ some e)
    (hold : cache.oldest ≠ some e) :
    ∃ cache', cache.recache e = .ok cache' ∧ Wf cache' (e :: as.erase e) ∧
      Relinked cache cache' := by
  obtain ⟨pre, x, p, post, rfl, hx, hp⟩ := h.links.split_of_ne_ends he hnew hold
  obtain ⟨n, hn⟩ := h.newest_eq he
  have hunlinked := h.links.unlink
  rw [hx, hp] at hunlinked
  have hnodup := h.links.nodup
  have hrest : e ∉ pre ++ x :: p :: post := by
    have hmid : (pre ++ [x] ++ e :: (p :: post)).Nodup := by simpa using hnodup
    have := (List.nodup_cons.mp (List.nodup_middle.mp hmid)).1
    simpa using this
  have hpush := hunlinked.push hrest hn
  have hex : e ≠ x := by
    rintro rfl
    exact hrest (by simp)
  have hep : e ≠ p := by
    rintro rfl
    exact hrest (by simp)
  have hnp : n ≠ p := by
    -- the newest element is the first, and the older neighbour of `e` is not
    rintro rfl
    have hhead := h.links.head?_eq
    rw [hn] at hhead
    cases pre with
    | nil =>
      simp only [List.nil_append, List.head?_cons, Option.some_inj] at hhead
      simp [hhead] at hnodup
    | cons c pre =>
      simp only [List.cons_append, List.head?_cons, Option.some_inj] at hhead
      simp [hhead] at hnodup
  have herase : (pre ++ x :: e :: p :: post).erase e = pre ++ x :: p :: post := by
    have hpre : e ∉ pre ++ [x] := fun hmem => hrest (by simp at hmem ⊢; tauto)
    have hsplit : pre ++ x :: e :: p :: post = (pre ++ [x]) ++ e :: p :: post := by simp
    rw [hsplit, List.erase_append_right _ hpre]
    simp
  rw [herase]
  let cache' := (((((cache.setNewer e none).setOlder e cache.newest).setNewer n (some e)).setNewest
    (some e)).setNewer p (some x)).setOlder x (some p)
  have hrelinked : Relinked cache cache' :=
    (((((Relinked.refl cache).setNewer e none).setOlder e _).setNewer n (some e)).setNewest
      (some e)).setNewer p (some x) |>.setOlder x (some p)
  refine ⟨cache', ?_, h.relink ?_ ?_ hrelinked, hrelinked⟩
  · have hnext : cache.newer e = some x := hx
    have hprev : cache.older e = some p := hp
    unfold LRUCache.recache
    rw [if_neg hnew, if_neg hold]
    simp only [hnext, hprev, newest_setOlder, newest_setNewer, cache', hn]
    rfl
  · have hperm : ((pre ++ [x]) ++ e :: p :: post).Perm (e :: ((pre ++ [x]) ++ p :: post)) :=
      List.perm_middle
    simpa using hperm.symm
  · simp only [cache', older_setOlder, older_setNewer, newer_setOlder, newer_setNewer,
      older_setNewest, newer_setNewest, newest_setNewest, newest_setOlder, newest_setNewer,
      oldest_setOlder, oldest_setNewer, oldest_setNewest]
    rw [Function.update_comm hex, Function.update_comm hnp, Function.update_comm hep]
    exact hpush

/-- A digest that is stored again moves its element to the front of the list. -/
theorem Wf.recache (h : Wf cache as) {e : ℕ} (he : e ∈ as) :
    ∃ cache', cache.recache e = .ok cache' ∧ Wf cache' (e :: as.erase e) ∧
      Relinked cache cache' := by
  by_cases hnew : cache.newest = some e
  · have hhead := h.links.head?_eq
    rw [hnew] at hhead
    obtain ⟨rest, rfl⟩ := List.head?_eq_some_iff.mp hhead
    refine ⟨cache, ?_, ?_, Relinked.refl cache⟩
    · unfold LRUCache.recache
      rw [if_pos hnew]
      rfl
    · simpa using h
  · by_cases hold : cache.oldest = some e
    · exact h.recache_oldest hnew hold
    · exact h.recache_middle he hnew hold

theorem map_update_of_notMem {a : ℕ} (ha : a ∉ as) (f : ℕ → Digest) (d : Digest) :
    as.map (Function.update f a d) = as.map f := by
  apply List.map_congr_left
  intro b hb
  apply Function.update_of_ne
  rintro rfl
  exact ha hb

/-- An element, new or recycled, in front of others whose contents stayed as they were. -/
theorem Wf.front {cache' : LRUCache D} {a : ℕ} {rest : List ℕ} {d : Digest}
    (hlinks : Doubly cache'.older cache'.newer cache'.newest cache'.oldest (a :: rest))
    (hcount : (a :: rest).length = cache'.count) (hsize : cache'.count ≤ cache'.size)
    (hdigest : cache'.digest = Function.update cache.digest a d)
    (hfiled : Filed cache'.digest cache'.ht (insert a {b | b ∈ rest}))
    (hnodup : (rest.map cache.digest).Nodup) (hd : d ∉ rest.map cache.digest)
    (hallocated : ∀ b ∈ a :: rest, ∃ n < cache'.allocated, b = cache'.safeMalloc n)
    (hfresh : Function.Injective cache'.safeMalloc) : Wf cache' (a :: rest) := by
  have ha : a ∉ rest := (List.nodup_cons.mp hlinks.nodup).1
  refine ⟨hlinks, hcount, hsize, ?_, ?_, hallocated, hfresh⟩
  · have hset : {b | b ∈ a :: rest} = insert a {b | b ∈ rest} := by
      ext b
      simp
    rw [hset]
    exact hfiled
  · rw [hdigest, List.map_cons, Function.update_self, map_update_of_notMem ha]
    exact List.nodup_cons.mpr ⟨hd, hnodup⟩

theorem relinked_linkNewest (cache : LRUCache D) (a : ℕ) : Relinked cache (cache.linkNewest a) := by
  unfold linkNewest
  split
  · exact (((Relinked.refl cache).setOlder a _).setNewest _).setNewer _ _
  · exact (((Relinked.refl cache).setOlder a none).setNewest _).setOldest _

theorem links_linkNewest {a : ℕ} {up : ℕ → Option ℕ}
    (h : Doubly cache.older up cache.newest cache.oldest as)
    (hup : cache.newer = Function.update up a none) (ha : a ∉ as) :
    Doubly (cache.linkNewest a).older (cache.linkNewest a).newer (cache.linkNewest a).newest
      (cache.linkNewest a).oldest (a :: as) := by
  have hhead := h.head?_eq
  have hlast := h.getLast?_eq
  cases as with
  | nil =>
    have hlink : cache.linkNewest a =
        ((cache.setOlder a none).setNewest (some a)).setOldest (some a) := by
      unfold linkNewest
      rw [← hlast]
      rfl
    rw [hlink]
    refine ⟨⟨rfl, ?_⟩, ⟨rfl, ?_⟩⟩
    · simp
    · simp [hup]
  | cons n as =>
    obtain ⟨o, ho⟩ : ∃ o, cache.oldest = some o := by
      rw [← hlast]
      exact ⟨_, List.getLast?_eq_some_getLast (List.cons_ne_nil n as)⟩
    have hn : cache.newest = some n := hhead.symm
    have hlink : cache.linkNewest a =
        ((cache.setOlder a cache.newest).setNewest (some a)).setNewer n (some a) := by
      unfold linkNewest
      simp only [ho, hn]
    have hpush := h.push ha hn
    rw [hlink]
    simpa [hup] using hpush

/-- A new element is allocated and put in front of the others. -/
theorem Wf.fill (h : Wf cache as) (hroom : cache.count < cache.size) {d : Digest}
    (hd : d ∉ as.map cache.digest) (thing : Option D) :
    ∃ cache' a, cache.fill d thing = .ok cache' ∧ Wf cache' (a :: as) ∧
      cache'.digest = Function.update cache.digest a d ∧
      cache'.data = Function.update cache.data a thing ∧ cache'.size = cache.size := by
  have ha : cache.safeMalloc cache.allocated ∉ as := by
    intro hmem
    obtain ⟨n, hn, heq⟩ := h.allocated _ hmem
    have := h.fresh heq
    omega
  have hne : ∀ b ∈ {b | b ∈ as}, cache.digest b ≠ d := by
    rintro b hb rfl
    exact hd (List.mem_map_of_mem hb)
  have halloc : allocLRUElement cache = (some (cache.safeMalloc cache.allocated),
      { cache with allocated := cache.allocated + 1, count := cache.count + 1 }) := if_pos hroom
  have hallocated : ∀ b ∈ cache.safeMalloc cache.allocated :: as,
      ∃ n < cache.allocated + 1, b = cache.safeMalloc n := by
    intro b hb
    rcases List.mem_cons.mp hb with rfl | hb
    · exact ⟨cache.allocated, by omega, rfl⟩
    · obtain ⟨n, hn, rfl⟩ := h.allocated b hb
      exact ⟨n, by omega, rfl⟩
  obtain ⟨ht', n, hput, hfiled⟩ := h.filed.htPut_renamed ha hne
  let a := cache.safeMalloc cache.allocated
  let cache₁ : LRUCache D :=
    { cache with allocated := cache.allocated + 1, count := cache.count + 1 }
  let cache₂ := (cache₁.setContent a d thing).setNewer a none
  have hdown : cache₂.older = cache.older := by
    simp only [cache₂, older_setNewer, older_setContent]
    rfl
  have hup : cache₂.newer = Function.update cache.newer a none := by
    simp only [cache₂, newer_setNewer, newer_setContent]
    rfl
  have hdigest : cache₂.digest = Function.update cache.digest a d := by
    simp only [cache₂, digest_setNewer, digest_setContent]
    rfl
  have hdata : cache₂.data = Function.update cache.data a thing := by
    simp only [cache₂, data_setNewer, data_setContent]
    rfl
  have hlinks : Doubly cache₂.older cache.newer cache₂.newest cache₂.oldest as := by
    rw [hdown]
    exact h.links
  have hrest := relinked_linkNewest cache₂ a
  refine ⟨(cache₂.linkNewest a).setHt ht', a, ?_, ?_, hrest.digest.trans hdigest,
    hrest.data.trans hdata, hrest.size⟩
  · have hput' : htPut (cache₂.linkNewest a).digest (cache₂.linkNewest a).ht (.element a) (some a) =
        .ok (n, ht') := by
      rw [hrest.digest, hdigest, hrest.ht]
      exact hput
    unfold LRUCache.fill
    rw [halloc]
    change (do
      let r ← htPut (cache₂.linkNewest a).digest (cache₂.linkNewest a).ht (.element a) (some a)
      return (cache₂.linkNewest a).setHt r.2) = _
    rw [hput']
    rfl
  · have hlength : (a :: as).length = cache.count + 1 := by
      rw [List.length_cons, h.count]
    have hsize : (cache₂.linkNewest a).count ≤ (cache₂.linkNewest a).size := by
      rw [hrest.count, hrest.size]
      exact hroom
    refine Wf.front (links_linkNewest hlinks hup ha) (hlength.trans hrest.count.symm) hsize
      (hrest.digest.trans hdigest) ?_ h.digests hd ?_ ?_
    · change Filed (cache₂.linkNewest a).digest ht' _
      rw [hrest.digest, hdigest]
      exact hfiled
    · change ∀ b ∈ a :: as,
        ∃ n < (cache₂.linkNewest a).allocated, b = (cache₂.linkNewest a).safeMalloc n
      rw [hrest.allocated, hrest.safeMalloc]
      exact hallocated
    · change Function.Injective (cache₂.linkNewest a).safeMalloc
      rw [hrest.safeMalloc]
      exact h.fresh

/-- After the oldest element is taken out of the table, the others are what it holds. -/
theorem Wf.htRemove_oldest (pre : List ℕ) {o : ℕ} (h : Wf cache (pre ++ [o]))
    {ht : Hashtable (ℕ → Digest) DigestPtr ℕ} (hfiled : Filed cache.digest ht {a | a ∈ pre ++ [o]}) :
    ∃ ht' n, htRemove cache.digest ht (.element o) = .ok (n, ht') ∧
      Filed cache.digest ht' {a | a ∈ pre} := by
  have ho : o ∈ pre ++ [o] := by simp
  have hnodup := h.links.nodup
  have hset : {b ∈ {a | a ∈ pre ++ [o]} | cache.digest b ≠ cache.digest o} = {a | a ∈ pre} := by
    ext b
    constructor
    · rintro ⟨hb, hne⟩
      rcases List.mem_append.mp hb with hb | hb
      · exact hb
      · rw [List.mem_singleton.mp hb] at hne
        exact absurd rfl hne
    · intro hb
      have hmem : b ∈ pre ++ [o] := List.mem_append_left _ hb
      refine ⟨hmem, h.digest_ne hmem ho ?_⟩
      rintro rfl
      exact (List.nodup_append.mp hnodup).2.2 b hb b (by simp) rfl
  rw [← hset]
  exact hfiled.htRemove_found ho

/-- A full cache of two or more: the oldest element is given the new digest and goes to the front. -/
theorem Wf.recycle {pre : List ℕ} {o : ℕ} (h : Wf cache (pre ++ [o])) (hpre : pre ≠ [])
    {d : Digest} (hd : d ∉ (pre ++ [o]).map cache.digest) (thing : Option D) :
    ∃ cache', cache.recycle d thing = .ok (cache.data o, cache') ∧ Wf cache' (o :: pre) ∧
      cache'.digest = Function.update cache.digest o d ∧
      cache'.data = Function.update cache.data o thing ∧ cache'.size = cache.size := by
  obtain ⟨pre, o₂, rfl⟩ := (List.eq_nil_or_concat' pre).resolve_left hpre
  have ho : o ∈ pre ++ [o₂] ++ [o] := by simp
  have hlinks := h.links
  simp only [List.append_assoc, List.singleton_append] at hlinks
  obtain ⟨hcut, hup⟩ := hlinks.dropBack
  obtain ⟨n, hn⟩ := h.newest_eq ho
  have hold : cache.oldest = some o := by
    rw [← h.links.getLast?_eq]
    simp
  have hrest : o ∉ pre ++ [o₂] := by
    have hnodup := h.links.nodup
    intro hmem
    exact (List.nodup_append.mp hnodup).2.2 o hmem o (by simp) rfl
  have hne : o ≠ o₂ := by
    rintro rfl
    exact hrest (by simp)
  have hpush := hcut.push hrest hn
  rw [List.map_append, List.mem_append, not_or] at hd
  have hdigests : ∀ b ∈ {a | a ∈ pre ++ [o₂]}, cache.digest b ≠ d := by
    rintro b hb rfl
    exact hd.1 (List.mem_map_of_mem hb)
  obtain ⟨ht₁, hget, hfiled₁⟩ := h.filed.htGet_found (.element o) ho rfl
  obtain ⟨ht₂, k, hremove, hfiled₂⟩ := h.htRemove_oldest _ hfiled₁
  obtain ⟨ht₃, k', hput, hfiled₃⟩ := hfiled₂.htPut_renamed hrest hdigests
  let cache₁ := ((cache.setHt ht₁).setHt ht₂).setContent o d thing
  let cache₂ := (((((cache₁.setNewer o none).setOlder o cache.newest).setNewer n (some o)).setNewest
    (some o)).setOldest (some o₂)).setOlder o₂ none
  have hrelinked : Relinked cache₁ cache₂ :=
    (((((Relinked.refl cache₁).setNewer o none).setOlder o _).setNewer n (some o)).setNewest
      (some o)).setOldest (some o₂) |>.setOlder o₂ none
  have hdigest : cache₂.digest = Function.update cache.digest o d := by
    rw [hrelinked.digest]
    exact digest_setContent ..
  have hdata : cache₂.data = Function.update cache.data o thing := by
    rw [hrelinked.data]
    exact data_setContent ..
  refine ⟨cache₂.setHt ht₃, ?_, ?_, hdigest, hdata, hrelinked.size⟩
  · have hput' : htPut cache₂.digest cache₂.ht (.element o) (some o) = .ok (k', ht₃) := by
      rw [hdigest, hrelinked.ht]
      exact hput
    have hsecond : cache.newer o = some o₂ := hup
    unfold LRUCache.recycle
    simp only [hold, deref, Exec.pure_eq_ok, Exec.ok_bind, hget, hsecond, ht_setHt, digest_setHt,
      hremove, newest_setOlder, newest_setNewer, newest_setContent, newest_setHt, hn]
    rw [← hn]
    change (do
      let r ← htPut cache₂.digest cache₂.ht (.element o) (some o)
      return (cache.data o, cache₂.setHt r.2)) = _
    rw [hput']
    rfl
  · have hlinks₂ : Doubly cache₂.older cache₂.newer cache₂.newest cache₂.oldest (o :: (pre ++ [o₂])) := by
      simp only [cache₂, cache₁, older_setOlder, older_setOldest, older_setNewest, older_setNewer,
        newer_setOlder, newer_setOldest, newer_setNewest, newer_setNewer, newest_setOlder,
        newest_setOldest, newest_setNewest, oldest_setOlder, oldest_setOldest, older_setContent,
        newer_setContent, older_setHt, newer_setHt]
      rw [Function.update_comm hne]
      exact hpush
    have hperm : (o :: (pre ++ [o₂])).Perm (pre ++ [o₂] ++ [o]) :=
      (List.perm_append_singleton o (pre ++ [o₂])).symm
    have hcount : (o :: (pre ++ [o₂])).length = cache₂.count := by
      rw [hperm.length_eq, h.count]
      exact hrelinked.count.symm
    refine Wf.front hlinks₂ hcount (hrelinked.count.le.trans (h.size.trans hrelinked.size.ge))
      hdigest ?_ ?_ hd.1 ?_ ?_
    · change Filed cache₂.digest ht₃ _
      rw [hdigest]
      exact hfiled₃
    · have hnodup := h.digests
      rw [List.map_append] at hnodup
      exact (List.nodup_append.mp hnodup).1
    · have hallocated : (cache₂.setHt ht₃).allocated = cache.allocated := hrelinked.allocated
      have hmalloc : (cache₂.setHt ht₃).safeMalloc = cache.safeMalloc := hrelinked.safeMalloc
      rw [hallocated, hmalloc]
      exact fun b hb => h.allocated b (hperm.mem_iff.mp hb)
    · have hmalloc : (cache₂.setHt ht₃).safeMalloc = cache.safeMalloc := hrelinked.safeMalloc
      rw [hmalloc]
      exact h.fresh

/-- A full cache of one: its element is given the new digest where it stands. -/
theorem Wf.recycleOnly {o : ℕ} (h : Wf cache [o]) (d : Digest) (thing : Option D) :
    ∃ cache', cache.recycleOnly d thing = .ok (cache.data o, cache') ∧ Wf cache' [o] ∧
      cache'.digest = Function.update cache.digest o d ∧
      cache'.data = Function.update cache.data o thing ∧ cache'.size = cache.size := by
  have hold : cache.oldest = some o := h.links.getLast?_eq.symm
  obtain ⟨ht₁, k, hremove, hfiled₁⟩ := Wf.htRemove_oldest [] h h.filed
  obtain ⟨ht₂, k', hput, hfiled₂⟩ := hfiled₁.htPut_renamed (a := o) (d := d) List.not_mem_nil (by simp)
  let cache₁ := (cache.setHt ht₁).setContent o d thing
  have hdigest : cache₁.digest = Function.update cache.digest o d := digest_setContent ..
  refine ⟨cache₁.setHt ht₂, ?_, ?_, hdigest, data_setContent .., rfl⟩
  · have hput' : htPut cache₁.digest cache₁.ht (.element o) (some o) = .ok (k', ht₂) := by
      rw [hdigest]
      exact hput
    unfold LRUCache.recycleOnly
    simp only [hold, deref, Exec.pure_eq_ok, Exec.ok_bind, hremove]
    change (do
      let r ← htPut cache₁.digest cache₁.ht (.element o) (some o)
      return (cache.data o, cache₁.setHt r.2)) = _
    rw [hput']
    rfl
  · have hlinks : Doubly cache₁.older cache₁.newer cache₁.newest cache₁.oldest [o] := by
      simp only [cache₁, older_setContent, newer_setContent, older_setHt, newer_setHt]
      exact h.links
    refine Wf.front hlinks h.count h.size hdigest ?_ List.nodup_nil List.not_mem_nil h.allocated h.fresh
    change Filed cache₁.digest ht₂ _
    rw [hdigest]
    exact hfiled₂

end LRUCache
end ZoweCommon
