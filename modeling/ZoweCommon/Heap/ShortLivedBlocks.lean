import ZoweCommon.Heap.ShortLived

/-! Where the storage that a short-lived heap returns lies, and that all of it is freed. -/
namespace ZoweCommon
namespace Heap

open Allocation

/-- A heap in use, and the ranges it has returned for the sizes that were asked for. -/
structure Session (σ : Type) where
  slh : ShortLivedHeap
  process : Process σ
  ranges : List Extent

section

variable {σ : Type} (A : Allocator σ) (b : Build)

def Session.alloc (t : Session σ) (size : ℤ) : Exec (Session σ) := do
  let (data, slh, p) ← SLHAlloc A b t.slh size t.process
  return ⟨slh, p, (data.toList.map fun a => ⟨a, size⟩) ++ t.ranges⟩

def obtained (is64 : Bool) (size : ℤ) : ℤ := if is64 then b.size64 (size + 4) else size + 4

def blockOf (is64 : Bool) (sizeAt : ℤ → ℤ) (elt : ListElt) : Extent :=
  ⟨elt.data - 4, obtained b is64 (sizeAt (elt.data - 4))⟩

def cellOf (elt : ListElt) : Extent := ⟨elt.address, sizeofListElt b⟩

def heapOf (slh : ShortLivedHeap) : Extent := ⟨slh.address, sizeofShortLivedHeap b⟩

/-- All that the elements of a chain have from the system. -/
def chainExtents (is64 : Bool) (sizeAt : ℤ → ℤ) (chain : List ListElt) : List Extent :=
  chain.flatMap fun elt => [blockOf b is64 sizeAt elt, cellOf b elt]

def room (sizeAt : ℤ → ℤ) (elt : ListElt) : Extent := ⟨elt.data, sizeAt (elt.data - 4)⟩

/-- What is promised of the ranges of a heap, of its blocks, and of freeing it; `given` is what
the system had given out before the heap was made. -/
structure Session.Sound (given : List Extent) (t : Session σ) : Prop where
  inBlock : ∀ r ∈ t.ranges, ∃ block ∈ A.given t.process.storage,
    block.start + 4 ∈ t.slh.blockChain.map ListElt.data ∧
      r.Inside ⟨block.start + 4, block.size - 4⟩
  apart : t.ranges.Pairwise Extent.Apart
  oversize : ∀ size t', t.slh.blockSize < rounded size → t.alloc A b size = .ok t' →
    t.slh.activeBlock.isSome → t'.slh.activeBlock = t.slh.activeBlock ∧
      t'.slh.bytesRemaining = t.slh.bytesRemaining
  count : t.slh.blockCount = t.slh.blockChain.length
  freed : ∃ p, SLHFree A b t.slh t.process = .ok p ∧ (A.given p.storage).Perm given

structure Session.Meets (t : Session σ) (size : ℤ) : Prop where
  rounds : size ≤ 2147483640
  counts : t.slh.blockCount = 2147483647 →
    rounded size ≤ t.slh.blockSize ∧ (t.slh.usable (rounded size)).isSome

/-- Every request of a run meets the condition. -/
def Session.RunMeets (t : Session σ) : List ℤ → Prop
  | [] => True
  | size :: sizes => t.Meets size ∧ ∀ t', t.alloc A b size = .ok t' → t'.RunMeets sizes

/-- The ranges are in the rooms of the chained blocks, apart from each other and from what is
left of the active block; `given` is what the system had given out before. -/
structure Session.Placed (given : List Extent) (is64 : Bool) (t : Session σ) : Prop where
  is64 : t.slh.is64 = is64
  blockSize : t.slh.blockSize < 2147483648
  obtains : t.slh.is64 → t.slh.blockChain ≠ [] → b.lp64
  sizes : ∀ elt ∈ t.slh.blockChain,
    0 ≤ t.process.sizeAt (elt.data - 4) ∧ t.process.sizeAt (elt.data - 4) < 2147483644
  given : (A.given t.process.storage).Perm
    (chainExtents b t.slh.is64 t.process.sizeAt t.slh.blockChain ++ heapOf b t.slh :: given)
  remaining : 0 ≤ t.slh.bytesRemaining ∧ t.slh.bytesRemaining < 2147483648
  active : ∀ a, t.slh.activeBlock = some a →
    (∃ elt ∈ t.slh.blockChain,
      Extent.Inside ⟨a, t.slh.bytesRemaining⟩ (room t.process.sizeAt elt)) ∧
    ∀ r ∈ t.ranges, Extent.Apart ⟨a, t.slh.bytesRemaining⟩ r
  inBlock : ∀ r ∈ t.ranges, ∃ elt ∈ t.slh.blockChain, r.Inside (room t.process.sizeAt elt)
  apart : t.ranges.Pairwise Extent.Apart

structure Session.Counted (t : Session σ) : Prop where
  count : t.slh.blockCount = t.slh.blockChain.length
  lt : t.slh.blockCount < 2147483648

end

theorem rounded_of_le {size : ℤ} (h : 0 ≤ size) (h' : size ≤ 2147483640) :
    size ≤ rounded size ∧ rounded size ≤ 2147483640 := by
  unfold rounded
  split_ifs with hrem
  · rw [toInt32_of_isInt32 ⟨by omega, by omega⟩]
    omega
  · exact ⟨Int.le_refl _, h'⟩

section

variable {σ : Type} {A : Allocator σ} {b : Build} {is64 : Bool} {sizeAt sizeAt' : ℤ → ℤ}
  {elt : ListElt} {chain : List ListElt} {slh : ShortLivedHeap} {p p' : Process σ} {s s' : σ}
  {given : List Extent} {t t' : Session σ} {size data : ℤ}

/-! Blocks -/

theorem le_obtained (b : Build) (is64 : Bool) (size : ℤ) : size + 4 ≤ obtained b is64 size := by
  unfold obtained
  split_ifs
  · exact b.le_size64 _
  · exact Int.le_refl _

theorem room_inside (b : Build) (is64 : Bool) (sizeAt : ℤ → ℤ) (elt : ListElt) :
    (room sizeAt elt).Inside
      ⟨(blockOf b is64 sizeAt elt).start + 4, (blockOf b is64 sizeAt elt).size - 4⟩ := by
  have hle := le_obtained b is64 (sizeAt (elt.data - 4))
  unfold Extent.Inside Extent.stop room blockOf
  dsimp only
  omega

theorem room_inside_block (b : Build) (is64 : Bool) (sizeAt : ℤ → ℤ) (elt : ListElt) :
    (room sizeAt elt).Inside (blockOf b is64 sizeAt elt) := by
  have hle := le_obtained b is64 (sizeAt (elt.data - 4))
  unfold Extent.Inside Extent.stop room blockOf
  dsimp only
  omega

@[simp] theorem chainExtents_cons : chainExtents b is64 sizeAt (elt :: chain) =
    blockOf b is64 sizeAt elt :: cellOf b elt :: chainExtents b is64 sizeAt chain := rfl

theorem blockOf_mem (h : elt ∈ chain) :
    blockOf b is64 sizeAt elt ∈ chainExtents b is64 sizeAt chain :=
  List.mem_flatMap.mpr ⟨elt, h, List.mem_cons_self⟩

theorem chainExtents_perm {chain' : List ListElt} (h : chain.Perm chain') :
    (chainExtents b is64 sizeAt chain).Perm (chainExtents b is64 sizeAt chain') :=
  h.flatMap_right _

theorem chainExtents_congr
    (h : ∀ elt ∈ chain, sizeAt' (elt.data - 4) = sizeAt (elt.data - 4)) :
    chainExtents b is64 sizeAt' chain = chainExtents b is64 sizeAt chain := by
  unfold chainExtents
  refine List.flatMap_congr fun elt helt => ?_
  unfold blockOf
  rw [h elt helt]

/-! New blocks -/

/-- Storage of a negative length is not given out. -/
theorem Build.size64_neg {b : Build} {n : ℤ} (h : n ≤ -1048576) : b.size64 n < 0 := by
  unfold Build.size64
  split_ifs <;> omega

/-- What a new block brings to a chain. -/
structure Added (A : Allocator σ) (b : Build) (slh : ShortLivedHeap) (p p' : Process σ)
    (elt : ListElt) (size : ℤ) : Prop where
  lp64 : slh.is64 → b.lp64
  fits : 0 ≤ size ∧ size < 2147483644
  sizeAt_new : p'.sizeAt (elt.data - 4) = size
  sizeAt_old : ∀ e ∈ A.given p.storage, p'.sizeAt e.start = p.sizeAt e.start
  apart : ∀ e ∈ A.given p.storage, (blockOf b slh.is64 p'.sizeAt elt).Apart e
  given : (A.given p'.storage).Perm
    (blockOf b slh.is64 p'.sizeAt elt :: cellOf b elt :: A.given p.storage)

theorem newBlock_spec (hsize : 0 ≤ size) (hsize' : size < 2147483648) {result : Option ℤ}
    (h : slh.newBlock A b size p = (result, p')) :
    match result with
    | some data =>
      (slh.is64 → b.lp64) ∧ size < 2147483644 ∧
        A.acquire p.storage (obtained b slh.is64 size) = (some (data - 4), p'.storage) ∧
        p'.sizeAt = Function.update p.sizeAt (data - 4) size
    | none => A.given p'.storage = A.given p.storage ∧ p'.sizeAt = p.sizeAt := by
  unfold ShortLivedHeap.newBlock at h
  have hobtained : ∀ {a s'}, (if slh.is64 then safeMalloc64 A b p.storage (toInt32 (size + 4))
      else safeMalloc31 A p.storage (toInt32 (size + 4))) = (some a, s') →
      (slh.is64 → b.lp64) ∧ size < 2147483644 ∧
        A.acquire p.storage (obtained b slh.is64 size) = (some a, s') := by
    intro a s' hgot
    have hnonneg : ∀ {n a s'}, A.acquire p.storage n = (some a, s') → 0 ≤ n :=
      fun hacquire => (A.acquire_some hacquire).2.1
    by_cases hover : size + 4 < 2147483648
    · rw [toInt32_of_isInt32 ⟨by omega, hover⟩] at hgot
      unfold obtained
      unfold safeMalloc64 safeMalloc31 at hgot
      split_ifs at hgot ⊢ with h64 hlp64
      · exact ⟨fun _ => hlp64, by omega, hgot⟩
      · cases hgot
      · exact ⟨fun his64 => absurd his64 h64, by omega, hgot⟩
    · rw [toInt32_of_overflow (by omega) (by omega)] at hgot
      unfold safeMalloc64 safeMalloc31 at hgot
      split_ifs at hgot
      · have hneg : b.size64 (size + 4 - 4294967296) < 0 := Build.size64_neg (by omega)
        exact absurd (hnonneg hgot) (by omega)
      · cases hgot
      · exact absurd (hnonneg hgot) (by omega)
  split at h
  · next block s' hgot =>
    cases h
    dsimp only
    rw [show block + 4 - 4 = block by omega]
    exact ⟨(hobtained hgot).1, (hobtained hgot).2.1, (hobtained hgot).2.2, rfl⟩
  · next s' hgot =>
    cases h
    refine ⟨?_, rfl⟩
    unfold safeMalloc64 safeMalloc31 at hgot
    split_ifs at hgot
    · exact A.acquire_none hgot
    · cases hgot
      rfl
    · exact A.acquire_none hgot

theorem cons_spec {list list' : List ListElt} (h : cons A b data list s = .ok (list', s')) :
    ∃ a, list' = ⟨a, data⟩ :: list ∧ A.given s' = ⟨a, sizeofListElt b⟩ :: A.given s := by
  unfold cons safeMalloc at h
  split at h
  · next a s₁ hgot =>
    cases h
    exact ⟨a, rfl, (A.acquire_some hgot).2.2.2⟩
  · cases h

theorem added {p₁ : Process σ} {list list' : List ListElt} (hsize : 0 ≤ size)
    (hsize' : size < 2147483648) (hnew : slh.newBlock A b size p = (some data, p₁))
    (hcons : cons A b data list p₁.storage = .ok (list', s')) :
    ∃ elt : ListElt, elt.data = data ∧ list' = elt :: list ∧
      Added A b slh p { p₁ with storage := s' } elt size := by
  obtain ⟨hlp64, hfits, hacquire, hsizeAt⟩ := newBlock_spec hsize hsize' hnew
  obtain ⟨a, rfl, hcell⟩ := cons_spec hcons
  obtain ⟨-, -, hapart, hgiven⟩ := A.acquire_some hacquire
  have hnodup := A.nodup_given p₁.storage
  rw [hgiven, List.map_cons, List.nodup_cons] at hnodup
  have hsame : p₁.sizeAt (data - 4) = size := by
    rw [hsizeAt, Function.update_self]
  have hblock : blockOf b slh.is64 p₁.sizeAt ⟨a, data⟩ = ⟨data - 4, obtained b slh.is64 size⟩ := by
    unfold blockOf
    rw [hsame]
  refine ⟨⟨a, data⟩, rfl, rfl, hlp64, ⟨hsize, hfits⟩, hsame, fun e he => ?_, ?_, ?_⟩
  · have hne : e.start ≠ data - 4 := by
      rintro heq
      exact hnodup.1 (List.mem_map.mpr ⟨e, he, heq⟩)
    dsimp only
    rw [hsizeAt, Function.update_of_ne hne]
  · dsimp only
    rw [hblock]
    exact hapart
  · dsimp only
    rw [hblock, hcell, hgiven]
    exact List.Perm.swap _ _ _

/-! The invariant -/

namespace Session.Placed

variable (h : t.Placed A b given is64)

include h

theorem block_given (helt : elt ∈ t.slh.blockChain) :
    blockOf b t.slh.is64 t.process.sizeAt elt ∈ A.given t.process.storage :=
  h.given.mem_iff.mpr (List.mem_append_left _ (blockOf_mem helt))

section

variable (hadd : Added A b t.slh t.process p' elt size)

include hadd

theorem sizeAt_old {e : ListElt} (he : e ∈ t.slh.blockChain) :
    p'.sizeAt (e.data - 4) = t.process.sizeAt (e.data - 4) :=
  hadd.sizeAt_old _ (h.block_given he)

theorem room_old {e : ListElt} (he : e ∈ t.slh.blockChain) :
    room p'.sizeAt e = room t.process.sizeAt e := by
  unfold room
  rw [h.sizeAt_old hadd he]

theorem new_apart {e : ListElt} (he : e ∈ t.slh.blockChain) :
    (room p'.sizeAt elt).Apart (room t.process.sizeAt e) :=
  (hadd.apart _ (h.block_given he)).inside (room_inside_block _ _ _ _) (room_inside_block _ _ _ _)

theorem new_apart_range {r : Extent} (hr : r ∈ t.ranges) : (room p'.sizeAt elt).Apart r := by
  obtain ⟨e, he, hinside⟩ := h.inBlock r hr
  exact (h.new_apart hadd he).inside (.refl _) hinside

theorem inBlock_old {list : List ListElt} (hlist : list.Perm (elt :: t.slh.blockChain))
    {r : Extent} (hr : r ∈ t.ranges) : ∃ e ∈ list, r.Inside (room p'.sizeAt e) := by
  obtain ⟨e, he, hinside⟩ := h.inBlock r hr
  refine ⟨e, hlist.mem_iff.mpr (List.mem_cons_of_mem _ he), ?_⟩
  rw [h.room_old hadd he]
  exact hinside

theorem sizes_add {list : List ListElt} (hlist : list.Perm (elt :: t.slh.blockChain)) :
    ∀ e ∈ list, 0 ≤ p'.sizeAt (e.data - 4) ∧ p'.sizeAt (e.data - 4) < 2147483644 := by
  intro e he
  rcases List.mem_cons.mp (hlist.mem_iff.mp he) with rfl | he
  · rw [hadd.sizeAt_new]
    exact hadd.fits
  · rw [h.sizeAt_old hadd he]
    exact h.sizes e he

theorem given_add {list : List ListElt} (hlist : list.Perm (elt :: t.slh.blockChain)) :
    (A.given p'.storage).Perm
      (chainExtents b t.slh.is64 p'.sizeAt list ++ heapOf b t.slh :: given) := by
  refine hadd.given.trans (.trans ?_ ((chainExtents_perm hlist).symm.append_right _))
  rw [chainExtents_cons, chainExtents_congr fun e he => h.sizeAt_old hadd he]
  exact .cons _ (.cons _ h.given)

end

/-- A block for one request leaves the active one alone. -/
theorem addOversize (hadd : Added A b t.slh t.process p' elt size) {list : List ListElt}
    (hlist : list.Perm (elt :: t.slh.blockChain)) {r : Extent}
    (hr : r.Inside (room p'.sizeAt elt)) :
    Placed A b given is64 ⟨{ t.slh with
      blockChain := list
      blockCount := toInt32 (t.slh.blockCount + 1) }, p', r :: t.ranges⟩ where
  is64 := h.is64
  blockSize := h.blockSize
  obtains h64 _ := hadd.lp64 h64
  sizes := h.sizes_add hadd hlist
  given := h.given_add hadd hlist
  remaining := h.remaining
  active a ha := by
    obtain ⟨⟨e, he, hinside⟩, hapart⟩ := h.active a ha
    refine ⟨⟨e, hlist.mem_iff.mpr (List.mem_cons_of_mem _ he), ?_⟩, fun r' hr' => ?_⟩
    · dsimp only
      rw [h.room_old hadd he]
      exact hinside
    · rcases List.mem_cons.mp hr' with rfl | hr'
      · exact ((h.new_apart hadd he).inside hr hinside).symm
      · exact hapart r' hr'
  inBlock r' hr' := by
    rcases List.mem_cons.mp hr' with rfl | hr'
    · exact ⟨elt, hlist.mem_iff.mpr List.mem_cons_self, hr⟩
    · exact h.inBlock_old hadd hlist hr'
  apart := List.pairwise_cons.mpr
    ⟨fun r' hr' => (h.new_apart_range hadd hr').inside hr (.refl _), h.apart⟩

theorem addActive (hadd : Added A b t.slh t.process p' elt size) {list : List ListElt}
    (hlist : list.Perm (elt :: t.slh.blockChain))
    {n : ℤ} (hn : 0 ≤ n) (hn' : n < 2147483648) (hle : n ≤ size) :
    Placed A b given is64 ⟨{ t.slh with
      activeBlock := some elt.data
      blockChain := list
      bytesRemaining := n
      blockCount := toInt32 (t.slh.blockCount + 1) }, p', t.ranges⟩ where
  is64 := h.is64
  blockSize := h.blockSize
  obtains h64 _ := hadd.lp64 h64
  sizes := h.sizes_add hadd hlist
  given := h.given_add hadd hlist
  remaining := ⟨hn, hn'⟩
  active a ha := by
    cases ha
    have hinside : Extent.Inside ⟨elt.data, n⟩ (room p'.sizeAt elt) := by
      unfold room
      rw [hadd.sizeAt_new]
      exact ⟨Int.le_refl _, Int.add_le_add_left hle _⟩
    exact ⟨⟨elt, hlist.mem_iff.mpr List.mem_cons_self, hinside⟩, fun r hr =>
      (h.new_apart_range hadd hr).inside hinside (.refl _)⟩
  inBlock r hr := h.inBlock_old hadd hlist hr
  apart := h.apart

theorem cut {a n : ℤ} (ha : t.slh.activeBlock = some a) (hsize : 0 ≤ size) (hle : size ≤ n)
    (hn : n ≤ t.slh.bytesRemaining) :
    Placed A b given is64 ⟨t.slh.cut a n, t.process, ⟨a, size⟩ :: t.ranges⟩ := by
  obtain ⟨⟨e, he, hinside⟩, hapart⟩ := h.active a ha
  have hremaining := h.remaining
  have hleft : toInt32 (t.slh.bytesRemaining - n) = t.slh.bytesRemaining - n :=
    toInt32_of_isInt32 ⟨by omega, by omega⟩
  have hcut : Extent.Inside ⟨a, size⟩ ⟨a, t.slh.bytesRemaining⟩ := by
    unfold Extent.Inside Extent.stop
    dsimp only
    omega
  have hrest : Extent.Inside ⟨a + n, t.slh.bytesRemaining - n⟩ ⟨a, t.slh.bytesRemaining⟩ := by
    unfold Extent.Inside Extent.stop
    dsimp only
    omega
  have hnew : Extent.Apart ⟨a + n, t.slh.bytesRemaining - n⟩ ⟨a, size⟩ := by
    unfold Extent.Apart Extent.stop
    dsimp only
    omega
  refine ⟨h.is64, h.blockSize, h.obtains, h.sizes, h.given, ?_, fun a' ha' => ?_,
    fun r hr => ?_, ?_⟩
  · unfold ShortLivedHeap.cut
    dsimp only
    omega
  · cases ha'
    unfold ShortLivedHeap.cut
    dsimp only
    rw [hleft]
    refine ⟨⟨e, he, hrest.trans hinside⟩, fun r hr => ?_⟩
    rcases List.mem_cons.mp hr with rfl | hr
    · exact hnew
    · exact (hapart r hr).inside hrest (.refl _)
  · rcases List.mem_cons.mp hr with rfl | hr
    · exact ⟨e, he, hcut.trans hinside⟩
    · exact h.inBlock r hr
  · exact List.pairwise_cons.mpr ⟨fun r hr => (hapart r hr).inside hcut (.refl _), h.apart⟩

/-- Nothing is obtained. -/
theorem unchanged (hgiven : A.given p'.storage = A.given t.process.storage)
    (hsizeAt : p'.sizeAt = t.process.sizeAt) :
    Placed A b given is64 ⟨t.slh, p', t.ranges⟩ :=
  ⟨h.is64, h.blockSize, h.obtains, by dsimp only; rw [hsizeAt]; exact h.sizes,
    by dsimp only; rw [hgiven, hsizeAt]; exact h.given, h.remaining,
    by dsimp only; rw [hsizeAt]; exact h.active, by dsimp only; rw [hsizeAt]; exact h.inBlock,
    h.apart⟩

/-- A request for more than a block. -/
theorem oversize {n : ℤ} (hsize : 0 ≤ size) (hle : size ≤ n) (hn : n ≤ 2147483640)
    {result : Option ℤ} {slh' : ShortLivedHeap}
    (hcall : t.slh.oversize A b n t.process = .ok (result, slh', p')) :
    Placed A b given is64 ⟨slh', p', (result.toList.map fun a => ⟨a, size⟩) ++ t.ranges⟩ := by
  unfold ShortLivedHeap.oversize at hcall
  split at hcall
  · next p₁ hnew =>
    cases hcall
    obtain ⟨hgiven, hsizeAt⟩ := newBlock_spec (by omega) (by omega) hnew
    exact h.unchanged hgiven hsizeAt
  · next bigBlock p₁ hnew =>
    split at hcall
    · next head blockTail hchain =>
      obtain ⟨⟨list, s₁⟩, hcons, heq⟩ := Exec.bind_eq_ok.mp hcall
      cases heq
      obtain ⟨elt, rfl, rfl, hadd⟩ := added (by omega) (by omega) hnew hcons
      refine h.addOversize hadd ?_ ?_
      · rw [hchain]
        exact List.Perm.swap _ _ _
      · unfold room
        rw [hadd.sizeAt_new]
        exact ⟨Int.le_refl _, Int.add_le_add_left hle _⟩
    · next hchain =>
      obtain ⟨⟨list, s₁⟩, hcons, heq⟩ := Exec.bind_eq_ok.mp hcall
      cases heq
      obtain ⟨elt, rfl, rfl, hadd⟩ := added (by omega) (by omega) hnew hcons
      have hlist : [elt].Perm (elt :: t.slh.blockChain) := by rw [hchain]
      have hactive := h.addActive hadd hlist (Int.le_refl 0) (by decide) (by omega)
      -- The first block of all has no bytes left, so it can be returned as a whole.
      have hranges : t.ranges = [] := by
        refine List.eq_nil_iff_forall_not_mem.mpr fun r hr => ?_
        obtain ⟨e, he, -⟩ := h.inBlock r hr
        rw [hchain] at he
        cases he
      have hinside : Extent.Inside ⟨elt.data, size⟩
          (room ({ p₁ with storage := s₁ } : Process σ).sizeAt elt) := by
        unfold room
        rw [hadd.sizeAt_new]
        exact ⟨Int.le_refl _, Int.add_le_add_left hle _⟩
      refine ⟨hactive.is64, hactive.blockSize, hactive.obtains, hactive.sizes, hactive.given,
        hactive.remaining, fun a ha => ⟨(hactive.active a ha).1, fun r hr => ?_⟩, fun r hr => ?_, ?_⟩
      · cases ha
        rw [hranges] at hr
        cases List.mem_singleton.mp hr
        exact .inl (Int.le_of_eq (Int.add_zero _))
      · rw [hranges] at hr
        cases List.mem_singleton.mp hr
        exact ⟨elt, List.mem_singleton_self _, hinside⟩
      · rw [hranges]
        exact List.pairwise_singleton _ _

/-- A request for part of a block when the active one has too little left. -/
theorem extend {n : ℤ} (hn : 0 ≤ n) (hle : n ≤ t.slh.blockSize)
    {result : Option ℤ} {slh' : ShortLivedHeap}
    (hcall : t.slh.extend A b t.process = .ok (result, slh', p')) :
    Placed A b given is64 ⟨slh', p', t.ranges⟩ ∧
      ∀ data, result = some data → slh'.activeBlock = some data ∧ n ≤ slh'.bytesRemaining := by
  have hsize := h.blockSize
  unfold ShortLivedHeap.extend at hcall
  split at hcall
  · next p₁ hnew =>
    cases hcall
    obtain ⟨hgiven, hsizeAt⟩ := newBlock_spec (by omega) hsize hnew
    exact ⟨h.unchanged hgiven hsizeAt, fun data hdata => by cases hdata⟩
  · next data p₁ hnew =>
    obtain ⟨⟨list, s₁⟩, hcons, heq⟩ := Exec.bind_eq_ok.mp hcall
    cases heq
    obtain ⟨elt, rfl, rfl, hadd⟩ := added (by omega) hsize hnew hcons
    refine ⟨h.addActive hadd (.refl _) (by omega) hsize (Int.le_refl _), ?_⟩
    rintro data hdata
    cases hdata
    exact ⟨rfl, hle⟩

/-- A call that returns. -/
theorem SLHAlloc (hsize : 0 ≤ size) (hsize' : size ≤ 2147483640) {result : Option ℤ}
    {slh' : ShortLivedHeap}
    (hcall : Heap.SLHAlloc A b t.slh size t.process = .ok (result, slh', p')) :
    Placed A b given is64 ⟨slh', p', (result.toList.map fun a => ⟨a, size⟩) ++ t.ranges⟩ := by
  obtain ⟨hle, hrounded⟩ := rounded_of_le hsize hsize'
  unfold Heap.SLHAlloc at hcall
  dsimp only at hcall
  split at hcall
  · cases hcall
  · split at hcall
    · exact h.oversize hsize hle hrounded hcall
    · next hfits =>
      split at hcall
      · next data husable =>
        cases hcall
        unfold ShortLivedHeap.usable at husable
        split_ifs at husable with hless
        exact h.cut husable hsize hle (by omega)
      · next husable =>
        obtain ⟨⟨result', slh₁, p₁⟩, hextend, heq⟩ := Exec.bind_eq_ok.mp hcall
        obtain ⟨hwf, hdata⟩ := h.extend (n := rounded size) (by omega) (by omega) hextend
        dsimp only at heq
        split at heq
        · next data =>
          cases heq
          obtain ⟨hactive, hroom⟩ := hdata data rfl
          exact hwf.cut hactive hsize hle hroom
        · cases heq
          exact hwf

theorem alloc (hsize : 0 ≤ size) (hsize' : size ≤ 2147483640)
    (hcall : t.alloc A b size = .ok t') : t'.Placed A b given is64 := by
  obtain ⟨⟨result, slh', p'⟩, hreturns, heq⟩ := Exec.bind_eq_ok.mp hcall
  cases heq
  exact h.SLHAlloc hsize hsize' hreturns

end Session.Placed

theorem count_SLHAlloc {result : Option ℤ} {slh' : ShortLivedHeap}
    (hcall : SLHAlloc A b slh size p = .ok (result, slh', p')) :
    slh'.blockChain.length = slh.blockChain.length ∧ slh'.blockCount = slh.blockCount ∨
      ¬(rounded size ≤ slh.blockSize ∧ (slh.usable (rounded size)).isSome) ∧
        slh'.blockChain.length = slh.blockChain.length + 1 ∧
        slh'.blockCount = toInt32 (slh.blockCount + 1) := by
  have hcons : ∀ {data list list' s s'}, cons A b data list s = .ok (list', s') →
      list'.length = list.length + 1 := by
    intro data list list' s s' hcons
    obtain ⟨a, rfl, -⟩ := cons_spec hcons
    rfl
  unfold SLHAlloc at hcall
  dsimp only at hcall
  split at hcall
  · cases hcall
  · split at hcall
    · next hbig =>
      unfold ShortLivedHeap.oversize at hcall
      split at hcall
      · cases hcall
        exact .inl ⟨rfl, rfl⟩
      · split at hcall
        · next head blockTail hchain =>
          obtain ⟨⟨list, s₁⟩, hlist, heq⟩ := Exec.bind_eq_ok.mp hcall
          cases heq
          refine .inr ⟨fun h => by omega, ?_, rfl⟩
          rw [hchain, List.length_cons, hcons hlist, List.length_cons]
        · next hchain =>
          obtain ⟨⟨list, s₁⟩, hlist, heq⟩ := Exec.bind_eq_ok.mp hcall
          cases heq
          refine .inr ⟨fun h => by omega, ?_, rfl⟩
          rw [hchain]
          exact hcons hlist
    · split at hcall
      · cases hcall
        exact .inl ⟨rfl, rfl⟩
      · next husable =>
        obtain ⟨⟨result', slh₁, p₁⟩, hextend, heq⟩ := Exec.bind_eq_ok.mp hcall
        unfold ShortLivedHeap.extend at hextend
        split at hextend
        · cases hextend
          cases heq
          exact .inl ⟨rfl, rfl⟩
        · obtain ⟨⟨list, s₁⟩, hlist, heq'⟩ := Exec.bind_eq_ok.mp hextend
          cases heq'
          cases heq
          refine .inr ⟨fun h => ?_, hcons hlist, rfl⟩
          rw [husable] at h
          cases h.2

theorem Session.Counted.alloc (h : t.Counted) (hmeets : t.Meets size)
    (hcall : t.alloc A b size = .ok t') : t'.Counted := by
  obtain ⟨⟨result, slh', p'⟩, hreturns, heq⟩ := Exec.bind_eq_ok.mp hcall
  cases heq
  have hcount := h.count
  have hlt := h.lt
  rcases count_SLHAlloc hreturns with ⟨hlength, hsame⟩ | ⟨hnew, hlength, hone⟩
  · constructor <;> dsimp only <;> omega
  · have hne : t.slh.blockCount ≠ 2147483647 := fun heq => hnew (hmeets.counts heq)
    rw [toInt32_of_isInt32 ⟨by omega, by omega⟩] at hone
    constructor <;> dsimp only <;> omega

/-- The invariants hold after every run. -/
theorem Session.Placed.run {sizes : List ℤ} (h : t.Placed A b given is64) (hcounted : t.Counted)
    (hsizes : ∀ size ∈ sizes, 0 ≤ size) (hmeets : t.RunMeets A b sizes)
    (hrun : sizes.foldlM (Session.alloc A b) t = .ok t') :
    t'.Placed A b given is64 ∧ t'.Counted := by
  induction sizes generalizing t with
  | nil =>
    cases hrun
    exact ⟨h, hcounted⟩
  | cons size sizes ih =>
    rw [List.foldlM_cons] at hrun
    obtain ⟨t₁, hcall, hrest⟩ := Exec.bind_eq_ok.mp hrun
    exact ih (h.alloc (hsizes size List.mem_cons_self) hmeets.1.rounds hcall)
      (hcounted.alloc hmeets.1 hcall) (fun n hn => hsizes n (List.mem_cons_of_mem _ hn))
      (hmeets.2 t₁ hcall) hrest

theorem placed_makeShortLivedHeapInternal {blockSize maxBlocks : ℤ}
    (hmake : makeShortLivedHeapInternal A b blockSize maxBlocks is64 p = .ok (slh, p')) :
    (⟨slh, p', []⟩ : Session σ).Placed A b (A.given p.storage) is64 ∧
      (⟨slh, p', []⟩ : Session σ).Counted := by
  unfold makeShortLivedHeapInternal safeMalloc at hmake
  split at hmake
  · next heap s' hgot =>
    cases hmake
    have hgiven := (A.acquire_some hgot).2.2.2
    exact ⟨
      { is64 := rfl
        blockSize := (isInt32_toInt32 blockSize).2
        obtains := fun _ hchain => absurd rfl hchain
        sizes := fun elt helt => absurd helt List.not_mem_nil
        given := by
          dsimp only
          rw [hgiven]
          exact .refl _
        remaining := by dsimp only; omega
        active := fun a ha => by cases ha
        inBlock := fun r hr => absurd hr List.not_mem_nil
        apart := List.Pairwise.nil }, rfl, by dsimp only; omega⟩
  · cases hmake

/-! Freeing -/

/-- All of a chain is freed, and nothing else. -/
theorem freeChain_of_perm (hobtains : slh.is64 → chain ≠ [] → b.lp64)
    (hfrees : slh.is64 → b.lp64 → b.mettle) {rest : List Extent}
    (hsizes : ∀ elt ∈ chain, 0 ≤ sizeAt (elt.data - 4) ∧ sizeAt (elt.data - 4) < 2147483644)
    (hgiven : (A.given s).Perm (chainExtents b slh.is64 sizeAt chain ++ rest)) :
    ∃ s', freeChain A b slh sizeAt chain s = .ok s' ∧ (A.given s').Perm rest := by
  induction chain generalizing s with
  | nil => exact ⟨s, rfl, hgiven⟩
  | cons elt chain ih =>
    rw [chainExtents_cons, List.cons_append, List.cons_append] at hgiven
    have hblock : ∃ s₁, slh.freeBlock A b s (elt.data - 4) (sizeAt (elt.data - 4)) = .ok s₁ ∧
        (A.given s₁).Perm (cellOf b elt :: (chainExtents b slh.is64 sizeAt chain ++ rest)) := by
      unfold ShortLivedHeap.freeBlock
      by_cases h64 : slh.is64
      · have hlp64 := hobtains h64 (List.cons_ne_nil _ _)
        rw [if_pos h64]
        exact safeFree64_of_perm hgiven ⟨hfrees h64 hlp64, hlp64⟩
      · rw [if_neg h64]
        have hsize := hsizes elt List.mem_cons_self
        rw [toInt32_of_isInt32 ⟨by omega, by omega⟩]
        have hfree := safeFree31_of_perm (b := b) hgiven
        unfold blockOf obtained at hfree
        rw [if_neg h64] at hfree
        exact hfree
    obtain ⟨s₁, hfreed, hgiven₁⟩ := hblock
    obtain ⟨s₂, hcell, hgiven₂⟩ := safeFree31_of_perm (b := b) hgiven₁
    obtain ⟨s', hrest, hgiven'⟩ := ih (fun h64 _ => hobtains h64 (List.cons_ne_nil _ _))
      (fun e he => hsizes e (List.mem_cons_of_mem _ he)) hgiven₂
    refine ⟨s', ?_, hgiven'⟩
    unfold freeChain
    dsimp only
    unfold safeFree
    unfold cellOf at hcell
    rw [hfreed, Exec.ok_bind, hcell]
    exact hrest

theorem Session.Placed.freed (h : t.Placed A b given is64) (hfrees : is64 → b.lp64 → b.mettle) :
    ∃ p, SLHFree A b t.slh t.process = .ok p ∧ (A.given p.storage).Perm given := by
  obtain ⟨s₁, hchain, hgiven₁⟩ := freeChain_of_perm h.obtains
    (by rw [h.is64]; exact hfrees) h.sizes h.given
  obtain ⟨s₂, hheap, hgiven₂⟩ := safeFree31_of_perm (b := b) hgiven₁
  refine ⟨{ t.process with storage := s₂ }, ?_, hgiven₂⟩
  unfold SLHFree safeFree
  rw [hchain, Exec.ok_bind]
  unfold heapOf at hheap
  rw [hheap]
  rfl

/-- A request for more than a block does not touch the active one. -/
theorem Session.Placed.oversize_active (h : t.Placed A b given is64)
    (hbig : t.slh.blockSize < rounded size) (hcall : t.alloc A b size = .ok t')
    (hactive : t.slh.activeBlock.isSome) :
    t'.slh.activeBlock = t.slh.activeBlock ∧ t'.slh.bytesRemaining = t.slh.bytesRemaining := by
  obtain ⟨⟨result, slh', p'⟩, hreturns, heq⟩ := Exec.bind_eq_ok.mp hcall
  cases heq
  unfold Heap.SLHAlloc at hreturns
  dsimp only at hreturns
  by_cases hrefused : rounded size > t.slh.remainingHeapBytes
  · rw [if_pos hrefused] at hreturns
    cases hreturns
  · rw [if_neg hrefused, if_pos hbig] at hreturns
    unfold ShortLivedHeap.oversize at hreturns
    split at hreturns
    · cases hreturns
      exact ⟨rfl, rfl⟩
    · split at hreturns
      · obtain ⟨⟨list, s₁⟩, -, heq⟩ := Exec.bind_eq_ok.mp hreturns
        cases heq
        exact ⟨rfl, rfl⟩
      · next hchain =>
        obtain ⟨a, ha⟩ := Option.isSome_iff_exists.mp hactive
        obtain ⟨⟨e, he, -⟩, -⟩ := h.active a ha
        rw [hchain] at he
        cases he

theorem Session.Placed.sound (h : t.Placed A b given is64) (hcounted : t.Counted)
    (hfrees : is64 → b.lp64 → b.mettle) : t.Sound A b given where
  inBlock r hr := by
    obtain ⟨e, he, hinside⟩ := h.inBlock r hr
    refine ⟨_, h.block_given he, ?_, hinside.trans (room_inside b _ _ e)⟩
    rw [show (blockOf b t.slh.is64 t.process.sizeAt e).start + 4 = e.data from
      Int.sub_add_cancel _ _]
    exact List.mem_map_of_mem he
  apart := h.apart
  oversize _ _ hbig hcall hactive := h.oversize_active hbig hcall hactive
  count := hcounted.count
  freed := h.freed hfrees

/-- The promises are kept in a run whose requests can be rounded and counted, of a heap whose
blocks are freed. -/
theorem sound_run {blockSize maxBlocks : ℤ} {sizes : List ℤ}
    (hmake : makeShortLivedHeapInternal A b blockSize maxBlocks is64 p = .ok (slh, p'))
    (hfrees : is64 → b.lp64 → b.mettle) (hsizes : ∀ size ∈ sizes, 0 ≤ size)
    (hmeets : (⟨slh, p', []⟩ : Session σ).RunMeets A b sizes)
    (hrun : sizes.foldlM (Session.alloc A b) ⟨slh, p', []⟩ = .ok t) :
    t.Sound A b (A.given p.storage) := by
  obtain ⟨hplaced, hcounted⟩ := placed_makeShortLivedHeapInternal hmake
  obtain ⟨hplaced', hcounted'⟩ := hplaced.run hcounted hsizes hmeets hrun
  exact hplaced'.sound hcounted' hfrees

/-- One request, in a process compiled with Metal C. -/
theorem sound_run_metal : ∃ slh p t,
    makeShortLivedHeapInternal Rising.allocator ⟨true, true⟩ 16 1 true ⟨.empty, fun _ => 0⟩ =
      .ok (slh, p) ∧
    [8].foldlM (Session.alloc Rising.allocator ⟨true, true⟩) ⟨slh, p, []⟩ = .ok t ∧
    t.Sound Rising.allocator ⟨true, true⟩ [] := by
  obtain ⟨slh, p, hmake⟩ : ∃ slh p, makeShortLivedHeapInternal Rising.allocator ⟨true, true⟩ 16 1
      true ⟨Rising.empty, fun _ => 0⟩ = .ok (slh, p) := ⟨_, _, rfl⟩
  obtain ⟨t, hrun⟩ : ∃ t, [8].foldlM (Session.alloc Rising.allocator ⟨true, true⟩) ⟨slh, p, []⟩ =
      .ok t := by
    cases hmake
    exact ⟨_, rfl⟩
  refine ⟨slh, p, t, hmake, hrun, sound_run hmake (fun _ _ => rfl) (by decide) ?_ hrun⟩
  refine ⟨⟨by decide, fun hcount => ?_⟩, fun _ _ => trivial⟩
  cases hmake
  exact absurd hcount (by decide)

/-- The same request in a process of 64 bits with a C library: the block is not freed. -/
theorem not_sound_run : ∃ slh p t,
    makeShortLivedHeapInternal Rising.allocator ⟨false, true⟩ 16 1 true ⟨.empty, fun _ => 0⟩ =
      .ok (slh, p) ∧
    [8].foldlM (Session.alloc Rising.allocator ⟨false, true⟩) ⟨slh, p, []⟩ = .ok t ∧
    ¬t.Sound Rising.allocator ⟨false, true⟩ [] := by
  refine ⟨_, _, _, rfl, rfl, fun h => ?_⟩
  obtain ⟨p, hfree, hgiven⟩ := h.freed
  cases hfree
  exact absurd hgiven.length_eq (by decide)

end

end Heap
end ZoweCommon
