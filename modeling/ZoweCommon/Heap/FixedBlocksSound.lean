import Mathlib.Data.List.Pairwise
import Mathlib.Logic.Relation
import ZoweCommon.Heap.FixedBlocks

/-! Where the blocks of a fixed block manager lie, which one is returned, and that all of the
extents are freed. -/
namespace ZoweCommon
namespace Heap

open Allocation PointerMemory

/-- A manager in use, the blocks that are live, and those that have been freed since they were
returned. -/
structure BlockSession (σ : Type) where
  mgr : FixedBlockMgr
  machine : Machine σ
  live : List ℤ
  freed : List ℤ

namespace FixedBlockMgr

def block (mgr : FixedBlockMgr) (a : ℤ) : Extent := ⟨a, mgr.blockSize⟩

def header (e : ℤ) : Extent := ⟨e, FB_HEADER_LENGTH⟩

def body (mgr : FixedBlockMgr) (e : ℤ) : Extent :=
  ⟨e + FB_HEADER_LENGTH, mgr.blockSize * mgr.blocksPerExtend⟩

def extentAt (mgr : FixedBlockMgr) (e : ℤ) : Extent :=
  ⟨e, mgr.blockSize * mgr.blocksPerExtend + FB_HEADER_LENGTH⟩

/-- What has not been carved. -/
def rest (mgr : FixedBlockMgr) : Extent := ⟨mgr.currentBlock, mgr.blockSize * mgr.blocksRemaining⟩

end FixedBlockMgr

section

variable {σ : Type} (A : Allocator σ) (b : Build)

/-- A call, which frees live blocks only, or a store in a live block. -/
inductive BlockStep : BlockSession σ → BlockSession σ → Prop
  | alloc {t : BlockSession σ} {block : ℤ} {mgr : FixedBlockMgr} {c : Machine σ} :
    fbMgrAlloc A b t.mgr t.machine = .ok (block, mgr, c) →
    BlockStep t ⟨mgr, c, block :: t.live, t.freed.erase block⟩
  | free {t : BlockSession σ} {block : ℤ} : block ∈ t.live →
    BlockStep t ⟨(fbMgrFree b t.mgr block t.machine).1, (fbMgrFree b t.mgr block t.machine).2,
      t.live.erase block, block :: t.freed⟩
  | write {t : BlockSession σ} {memory : Memory} :
    (∀ i, (∀ a ∈ t.live, ¬(a ≤ i ∧ i < a + t.mgr.blockSize)) →
      memory i = t.machine.memory i) →
    BlockStep t { t with machine := { t.machine with memory := memory } }

/-- What is promised of the blocks of a manager and of its extents; `given` is what the system had
given out before the manager was made. -/
structure BlockSession.Sound (given : List Extent) (t : BlockSession σ) : Prop where
  apart : t.live.Pairwise fun x y => (t.mgr.block x).Apart (t.mgr.block y)
  inExtent : ∀ x ∈ t.live, ∃ e ∈ A.given t.machine.storage,
    e.size = t.mgr.extentSize ∧
      (t.mgr.block x).Inside ⟨e.start + FB_HEADER_LENGTH, e.size - FB_HEADER_LENGTH⟩
  reused : t.freed ≠ [] → ∃ block ∈ t.freed, ∃ next,
    fbMgrAlloc A b t.mgr t.machine = .ok (block, { t.mgr with freeList := next }, t.machine)
  returns : ∀ fault, fbMgrAlloc A b t.mgr t.machine = .error fault →
    (A.acquire t.machine.storage t.mgr.extentSize).1 = none
  destroyed : ∃ n c, (∀ fuel, n ≤ fuel → fbMgrDestroy A b fuel t.mgr t.machine = .ok c) ∧
    (A.given c.storage).Perm given

end

/-- Headers, blocks and what has not been carved are apart from each other, each in an extent. -/
structure FixedBlockMgr.Layout (mgr : FixedBlockMgr) (extents blocks : List ℤ) : Prop where
  blockSize_pos : 0 < mgr.blockSize
  perExtend_pos : 0 < mgr.blocksPerExtend
  fits : mgr.blockSize * mgr.blocksPerExtend + FB_HEADER_LENGTH < 2147483648
  remaining : 0 ≤ mgr.blocksRemaining ∧ mgr.blocksRemaining ≤ mgr.blocksPerExtend
  positive : ∀ e ∈ extents, 0 < e
  headersApart : extents.Pairwise fun e f => (header e).Apart (header f)
  blocksApart : blocks.Pairwise fun x y => (mgr.block x).Apart (mgr.block y)
  headerBlock : ∀ e ∈ extents, ∀ x ∈ blocks, (header e).Apart (mgr.block x)
  restBlock : ∀ x ∈ blocks, mgr.rest.Apart (mgr.block x)
  restHeader : ∀ e ∈ extents, mgr.rest.Apart (header e)
  blockIn : ∀ x ∈ blocks, ∃ e ∈ extents, (mgr.block x).Inside (mgr.body e)
  restIn : 0 < mgr.blocksRemaining → ∃ e ∈ extents, mgr.rest.Inside (mgr.body e)

namespace FixedBlockMgr

theorem le_mul_of_pos {B n : ℤ} (hB : 0 < B) (hn : 0 < n) : n ≤ B * n := by
  have hle := Int.mul_le_mul_of_nonneg_right hB (Int.le_of_lt hn)
  rwa [Int.zero_add, Int.one_mul] at hle

theorem header_inside {mgr : FixedBlockMgr} (h : 0 < mgr.blockSize)
    (h' : 0 < mgr.blocksPerExtend) (e : ℤ) : (header e).Inside (mgr.extentAt e) := by
  have hle := le_mul_of_pos h h'
  unfold Extent.Inside Extent.stop header extentAt
  dsimp only
  omega

theorem body_inside (mgr : FixedBlockMgr) (e : ℤ) : (mgr.body e).Inside (mgr.extentAt e) := by
  unfold Extent.Inside Extent.stop body extentAt FB_HEADER_LENGTH
  dsimp only
  omega

theorem header_apart_body (mgr : FixedBlockMgr) (e : ℤ) : (header e).Apart (mgr.body e) :=
  .inl (Int.le_refl _)

namespace Layout

variable {mgr : FixedBlockMgr} {extents blocks : List ℤ} (h : mgr.Layout extents blocks)

include h

theorem perExtend_lt : mgr.blocksPerExtend < 2147483640 := by
  have hle := le_mul_of_pos h.blockSize_pos h.perExtend_pos
  have hfits := h.fits
  unfold FB_HEADER_LENGTH at hfits
  omega

theorem extentSize_eq :
    mgr.extentSize = mgr.blockSize * mgr.blocksPerExtend + FB_HEADER_LENGTH := by
  have hle := le_mul_of_pos h.blockSize_pos h.perExtend_pos
  have hpos := h.perExtend_pos
  have hfits := h.fits
  unfold extentSize
  unfold FB_HEADER_LENGTH at hfits ⊢
  rw [toInt32_of_isInt32 (n := mgr.blockSize * mgr.blocksPerExtend) ⟨by omega, by omega⟩,
    toInt32_of_isInt32 ⟨by omega, by omega⟩]

theorem perm {blocks' : List ℤ} (hperm : blocks.Perm blocks') : mgr.Layout extents blocks' :=
  { h with
    blocksApart := (hperm.pairwise_iff fun hapart => hapart.symm).mp h.blocksApart
    headerBlock := fun e he x hx => h.headerBlock e he x (hperm.mem_iff.mpr hx)
    restBlock := fun x hx => h.restBlock x (hperm.mem_iff.mpr hx)
    blockIn := fun x hx => h.blockIn x (hperm.mem_iff.mpr hx) }

/-- The free list has nothing to do with where the blocks lie. -/
theorem setFreeList (freeList : ℤ) :
    ({ mgr with freeList := freeList } : FixedBlockMgr).Layout extents blocks :=
  { h with }

theorem block_pos {x : ℤ} (hx : x ∈ blocks) : 0 < x := by
  obtain ⟨e, he, hinside, -⟩ := h.blockIn x hx
  have hpos := h.positive e he
  unfold body block FB_HEADER_LENGTH at hinside
  dsimp only at hinside
  omega

/-- A block is cut off what has not been carved. -/
theorem carve (hremaining : mgr.blocksRemaining ≠ 0) :
    mgr.carve.2.Layout extents (mgr.carve.1 :: blocks) := by
  obtain ⟨hnonneg, hle⟩ := h.remaining
  have hlt := h.perExtend_lt
  have hleft : toInt32 (mgr.blocksRemaining - 1) = mgr.blocksRemaining - 1 :=
    toInt32_of_isInt32 ⟨by omega, by omega⟩
  have hsize : mgr.blockSize * (mgr.blocksRemaining - 1) =
      mgr.blockSize * mgr.blocksRemaining - mgr.blockSize := by
    rw [Int.mul_sub, Int.mul_one]
  have hpos := h.blockSize_pos
  have hsizes : 0 ≤ mgr.blockSize * (mgr.blocksRemaining - 1) :=
    Int.mul_nonneg (by omega) (by omega)
  have hblock : (mgr.block mgr.currentBlock).Inside mgr.rest := by
    unfold Extent.Inside Extent.stop block rest
    dsimp only
    omega
  have hrest : mgr.carve.2.rest.Inside mgr.rest := by
    unfold Extent.Inside Extent.stop rest FixedBlockMgr.carve
    dsimp only
    rw [hleft]
    omega
  have hapart : mgr.carve.2.rest.Apart (mgr.block mgr.currentBlock) := .inr (Int.le_refl _)
  obtain ⟨e, he, hinside⟩ := h.restIn (by omega)
  exact
    { blockSize_pos := h.blockSize_pos
      perExtend_pos := h.perExtend_pos
      fits := h.fits
      remaining := by
        unfold FixedBlockMgr.carve
        dsimp only
        omega
      positive := h.positive
      headersApart := h.headersApart
      blocksApart := List.pairwise_cons.mpr
        ⟨fun x hx => (h.restBlock x hx).inside hblock (.refl _), h.blocksApart⟩
      headerBlock := fun f hf => List.forall_mem_cons.mpr
        ⟨((h.restHeader f hf).inside hblock (.refl _)).symm, h.headerBlock f hf⟩
      restBlock := List.forall_mem_cons.mpr
        ⟨hapart, fun x hx => (h.restBlock x hx).inside hrest (.refl _)⟩
      restHeader := fun f hf => (h.restHeader f hf).inside hrest (.refl _)
      blockIn := List.forall_mem_cons.mpr ⟨⟨e, he, hblock.trans hinside⟩, h.blockIn⟩
      restIn := fun _ => ⟨e, he, hrest.trans hinside⟩ }

/-- A new extent, which nothing has been carved of. -/
theorem extend {extent : ℤ} (hextent : 0 < extent)
    (hapart : ∀ e ∈ extents, (mgr.extentAt extent).Apart (mgr.extentAt e)) :
    ({ mgr with
      blocksRemaining := mgr.blocksPerExtend
      allExtents := extent
      currentBlock := extent + FB_HEADER_LENGTH } : FixedBlockMgr).Layout
      (extent :: extents) blocks := by
  have hheader := header_inside h.blockSize_pos h.perExtend_pos
  have hblocks : ∀ x ∈ blocks, (mgr.extentAt extent).Apart (mgr.block x) := by
    intro x hx
    obtain ⟨e, he, hinside⟩ := h.blockIn x hx
    exact (hapart e he).inside (.refl _) (hinside.trans (mgr.body_inside e))
  exact
    { blockSize_pos := h.blockSize_pos
      perExtend_pos := h.perExtend_pos
      fits := h.fits
      remaining := ⟨Int.le_of_lt h.perExtend_pos, Int.le_refl _⟩
      positive := List.forall_mem_cons.mpr ⟨hextent, h.positive⟩
      headersApart := List.pairwise_cons.mpr
        ⟨fun e he => (hapart e he).inside (hheader _) (hheader _), h.headersApart⟩
      blocksApart := h.blocksApart
      headerBlock := List.forall_mem_cons.mpr
        ⟨fun x hx => (hblocks x hx).inside (hheader _) (.refl _), h.headerBlock⟩
      restBlock := fun x hx => (hblocks x hx).inside (mgr.body_inside extent) (.refl _)
      restHeader := List.forall_mem_cons.mpr
        ⟨(mgr.header_apart_body extent).symm, fun e he =>
          (hapart e he).inside (mgr.body_inside extent) (hheader _)⟩
      blockIn := fun x hx => by
        obtain ⟨e, he, hinside⟩ := h.blockIn x hx
        exact ⟨e, List.mem_cons_of_mem _ he, hinside⟩
      restIn := fun _ => ⟨extent, List.mem_cons_self, .refl _⟩ }

end Layout

end FixedBlockMgr

section

variable {σ : Type} (A : Allocator σ) (b : Build)

def mgrExtent (mgr : FixedBlockMgr) : Extent := ⟨mgr.address, sizeofFixedBlockMgr b⟩

/-- Both chains are in memory, and the extents are all that the manager has been given. -/
structure BlockSession.Wf (given : List Extent) (extents : List ℤ) (t : BlockSession σ) :
    Prop where
  layout : t.mgr.Layout extents (t.live ++ t.freed)
  pointer : (b.sizeofPointer : ℤ) ≤ t.mgr.blockSize
  given : (A.given t.machine.storage).Perm
    (extents.map t.mgr.extentAt ++ mgrExtent b t.mgr :: given)
  extentsChained : Chained b.sizeofPointer t.machine.memory t.mgr.allExtents extents
  freedChained : Chained b.sizeofPointer t.machine.memory t.mgr.freeList t.freed

end

section

variable {σ : Type} {A : Allocator σ} {b : Build} {given : List Extent} {extents : List ℤ}
  {t t' : BlockSession σ} {mgr : FixedBlockMgr} {c : Machine σ} {block : ℤ}

theorem sizeofPointer_pos (b : Build) : 0 < b.sizeofPointer := by
  unfold Build.sizeofPointer
  split_ifs <;> decide

theorem word_inside_header (b : Build) (e : ℤ) :
    Extent.Inside ⟨e, b.sizeofPointer⟩ (FixedBlockMgr.header e) := by
  unfold Extent.Inside Extent.stop FixedBlockMgr.header FB_HEADER_LENGTH Build.sizeofPointer
  dsimp only
  split_ifs <;> omega

theorem word_inside_block (h : (b.sizeofPointer : ℤ) ≤ mgr.blockSize) (a : ℤ) :
    Extent.Inside ⟨a, b.sizeofPointer⟩ (mgr.block a) :=
  ⟨Int.le_refl _, Int.add_le_add_left h _⟩

namespace BlockSession.Wf

variable (h : t.Wf A b given extents)

include h

/-- A store in live blocks leaves the chains alone. -/
theorem write {memory : Memory}
    (hmemory : ∀ i, (∀ a ∈ t.live, ¬(a ≤ i ∧ i < a + t.mgr.blockSize)) →
      memory i = t.machine.memory i) :
    Wf A b given extents { t with machine := { t.machine with memory := memory } } := by
  have hagree : ∀ e : Extent, (∀ a ∈ t.live, e.Apart (t.mgr.block a)) →
      AgreeOn t.machine.memory memory e := by
    intro e hapart i hi hi'
    refine (hmemory i fun a ha hin => ?_).symm
    have := hapart a ha
    unfold Extent.Apart Extent.stop FixedBlockMgr.block at this
    unfold Extent.stop at hi'
    dsimp only at this
    omega
  refine ⟨h.layout, h.pointer, h.given, h.extentsChained.congr (sizeofPointer_pos b) fun e he => ?_,
    h.freedChained.congr (sizeofPointer_pos b) fun x hx => ?_⟩
  · exact (hagree _ fun a ha => h.layout.headerBlock e he a (List.mem_append_left _ ha)).inside
      (word_inside_header b e)
  · refine (hagree _ fun a ha => ?_).inside (word_inside_block h.pointer x)
    exact ((List.pairwise_append.mp h.layout.blocksApart).2.2 a ha x hx).symm

theorem free (hlive : block ∈ t.live) :
    Wf A b given extents ⟨(fbMgrFree b t.mgr block t.machine).1,
      (fbMgrFree b t.mgr block t.machine).2, t.live.erase block, block :: t.freed⟩ := by
  have hperm : (t.live ++ t.freed).Perm (t.live.erase block ++ block :: t.freed) :=
    ((List.perm_cons_erase hlive).append_right _).trans List.perm_middle.symm
  have hmem : block ∈ t.live ++ t.freed := List.mem_append_left _ hlive
  refine ⟨(h.layout.perm hperm).setFreeList block, h.pointer, h.given,
    h.extentsChained.congr (sizeofPointer_pos b) fun e he => agreeOn_store ?_,
    h.freedChained.store (sizeofPointer_pos b) ?_ fun y hy => ?_⟩
  · exact ((h.layout.headerBlock e he block hmem).inside (word_inside_header b e)
      (word_inside_block h.pointer block)).symm
  · have := h.layout.block_pos hmem
    omega
  · exact ((List.pairwise_append.mp h.layout.blocksApart).2.2 block hlive y hy).inside
      (word_inside_block h.pointer block) (word_inside_block h.pointer y)

theorem allocFreed {rest : List ℤ} (hfreed : t.freed = block :: rest) :
    ∃ next, fbMgrAlloc A b t.mgr t.machine =
        .ok (block, { t.mgr with freeList := next }, t.machine) ∧
      Wf A b given extents
        ⟨{ t.mgr with freeList := next }, t.machine, block :: t.live, rest⟩ := by
  have hchained := h.freedChained
  rw [hfreed] at hchained
  obtain ⟨hfirst, hne, next, hload, hrest⟩ := hchained
  refine ⟨next, ?_, ?_⟩
  · unfold fbMgrAlloc readPointer
    rw [hfirst, if_pos hne, hload]
    rfl
  · have hlayout := h.layout
    rw [hfreed] at hlayout
    exact ⟨(hlayout.perm List.perm_middle).setFreeList next, h.pointer, h.given,
      h.extentsChained, hrest⟩

theorem carve (hremaining : t.mgr.blocksRemaining ≠ 0) :
    Wf A b given extents ⟨t.mgr.carve.2, t.machine, t.mgr.carve.1 :: t.live, t.freed⟩ :=
  ⟨h.layout.carve hremaining, h.pointer, h.given, h.extentsChained, h.freedChained⟩

theorem extend (hcall : t.mgr.extend A b t.machine = .ok (mgr, c)) :
    mgr.blocksRemaining ≠ 0 ∧
      ∃ extents', Wf A b given extents' ⟨mgr, c, t.live, t.freed⟩ := by
  unfold FixedBlockMgr.extend safeMalloc at hcall
  split at hcall
  · next extent s hgot =>
    cases hcall
    obtain ⟨hpos, -, hapart, hgiven⟩ := A.acquire_some hgot
    rw [h.layout.extentSize_eq] at hapart hgiven
    have hextents : ∀ e ∈ extents, (t.mgr.extentAt extent).Apart (t.mgr.extentAt e) :=
      fun e he => hapart _ (h.given.mem_iff.mpr
        (List.mem_append_left _ (List.mem_map_of_mem he)))
    have hlayout := h.layout.extend hpos hextents
    have hheader := FixedBlockMgr.header_inside h.layout.blockSize_pos h.layout.perExtend_pos
    refine ⟨Int.ne_of_gt h.layout.perExtend_pos, extent :: extents, hlayout, h.pointer, ?_,
      h.extentsChained.store (sizeofPointer_pos b) (Int.ne_of_gt hpos) fun e he => ?_,
      h.freedChained.congr (sizeofPointer_pos b) fun x hx => agreeOn_store ?_⟩
    · dsimp only
      rw [hgiven]
      exact h.given.cons _
    · exact (hextents e he).inside ((word_inside_header b extent).trans (hheader _))
        ((word_inside_header b e).trans (hheader _))
    · obtain ⟨e, he, hinside⟩ := h.layout.blockIn x (List.mem_append_right _ hx)
      exact (hextents e he).inside ((word_inside_header b extent).trans (hheader _))
        ((word_inside_block h.pointer x).trans (hinside.trans (t.mgr.body_inside e)))
  · cases hcall

/-- New storage is carved only where no block is free. -/
theorem allocNew (hfreed : t.freed = [])
    (hcall : fbMgrAlloc A b t.mgr t.machine = .ok (block, mgr, c)) :
    ∃ extents', Wf A b given extents' ⟨mgr, c, block :: t.live, []⟩ := by
  have hnull : ¬t.mgr.freeList ≠ 0 := fun hne =>
    (h.freedChained.ne_nil_iff.mpr hne) hfreed
  unfold fbMgrAlloc at hcall
  rw [if_neg hnull] at hcall
  split at hcall
  · obtain ⟨⟨mgr₁, c₁⟩, hextend, heq⟩ := Exec.bind_eq_ok.mp hcall
    cases heq
    obtain ⟨hremaining, extents', hwf⟩ := h.extend hextend
    have hcarve := hwf.carve hremaining
    rw [hfreed] at hcarve
    exact ⟨extents', hcarve⟩
  · next hremaining =>
    cases hcall
    have hcarve := h.carve hremaining
    rw [hfreed] at hcarve
    exact ⟨extents, hcarve⟩

theorem alloc (hcall : fbMgrAlloc A b t.mgr t.machine = .ok (block, mgr, c)) :
    ∃ extents', Wf A b given extents' ⟨mgr, c, block :: t.live, t.freed.erase block⟩ := by
  cases hfreed : t.freed with
  | nil => exact h.allocNew hfreed hcall
  | cons x rest =>
    obtain ⟨next, hreturns, hwf⟩ := h.allocFreed hfreed
    rw [hcall] at hreturns
    cases hreturns
    rw [List.erase_cons_head]
    exact ⟨extents, hwf⟩

theorem step (hstep : BlockStep A b t t') : ∃ extents', t'.Wf A b given extents' := by
  cases hstep with
  | alloc hcall => exact h.alloc hcall
  | free hlive => exact ⟨extents, h.free hlive⟩
  | write hmemory => exact ⟨extents, h.write hmemory⟩

end BlockSession.Wf

/-- The invariant holds after every run. -/
theorem BlockSession.Wf.run (h : ∃ extents, t.Wf A b given extents)
    (hrun : Relation.ReflTransGen (BlockStep A b) t t') : ∃ extents, t'.Wf A b given extents := by
  induction hrun with
  | refl => exact h
  | tail _ hstep ih =>
    obtain ⟨extents, hwf⟩ := ih
    exact hwf.step hstep

/-- A manager that has just been made. -/
theorem wf_fbMgrCreate {blockSize blocksPerExtend : ℤ} {c' : Machine σ}
    (hcreate : fbMgrCreate A b blockSize blocksPerExtend c = .ok (mgr, c'))
    (hpointer : (b.sizeofPointer : ℤ) ≤ blockSize) (hperExtend : 0 < blocksPerExtend)
    (hfits : blockSize * blocksPerExtend + FB_HEADER_LENGTH < 2147483648) :
    (⟨mgr, c', [], []⟩ : BlockSession σ).Wf A b (A.given c.storage) [] := by
  have hword := sizeofPointer_pos b
  have hle := FixedBlockMgr.le_mul_of_pos (n := blocksPerExtend) (B := blockSize) (by omega)
    hperExtend
  have hle' := FixedBlockMgr.le_mul_of_pos (n := blockSize) (B := blocksPerExtend) hperExtend
    (by omega)
  rw [Int.mul_comm] at hle'
  unfold fbMgrCreate safeMalloc at hcreate
  split at hcreate
  · next a s hgot =>
    cases hcreate
    unfold FB_HEADER_LENGTH at hfits
    have hint : toInt32 blockSize = blockSize := toInt32_of_isInt32 ⟨by omega, by omega⟩
    have hint' : toInt32 blocksPerExtend = blocksPerExtend :=
      toInt32_of_isInt32 ⟨by omega, by omega⟩
    rw [hint, hint']
    exact
      { layout :=
          { blockSize_pos := by dsimp only; omega
            perExtend_pos := hperExtend
            fits := hfits
            remaining := ⟨Int.le_refl 0, Int.le_of_lt hperExtend⟩
            positive := fun e he => absurd he List.not_mem_nil
            headersApart := List.Pairwise.nil
            blocksApart := List.Pairwise.nil
            headerBlock := fun e he => absurd he List.not_mem_nil
            restBlock := fun x hx => absurd hx List.not_mem_nil
            restHeader := fun e he => absurd he List.not_mem_nil
            blockIn := fun x hx => absurd hx List.not_mem_nil
            restIn := fun hlt => absurd hlt (Int.lt_irrefl 0) }
        pointer := hpointer
        given := by
          dsimp only
          rw [(A.acquire_some hgot).2.2.2]
          exact .refl _
        extentsChained := rfl
        freedChained := rfl }
  · cases hcreate

/-! What the invariant says -/

theorem freeExtents_of_perm {size : ℤ} {rest : List Extent} {a : ℤ}
    (hchained : Chained b.sizeofPointer c.memory a extents)
    (hgiven : (A.given c.storage).Perm (extents.map (fun e => ⟨e, size⟩) ++ rest)) :
    ∃ s, (∀ fuel, extents.length + 1 ≤ fuel →
        freeExtents A b size fuel a c = .ok { c with storage := s }) ∧
      (A.given s).Perm rest := by
  induction extents generalizing a c with
  | nil =>
    obtain rfl : a = 0 := hchained
    refine ⟨c.storage, fun fuel hfuel => ?_, hgiven⟩
    obtain ⟨fuel, rfl⟩ := Nat.exists_eq_add_of_le' hfuel
    rfl
  | cons extent extents ih =>
    obtain ⟨rfl, hne, next, hload, hrest⟩ := hchained
    rw [List.map_cons, List.cons_append] at hgiven
    obtain ⟨s, hfreed, hgiven'⟩ := safeFree31_of_perm (b := b) hgiven
    obtain ⟨s', hall, hgiven''⟩ := ih (c := { c with storage := s }) hrest hgiven'
    refine ⟨s', fun fuel hfuel => ?_, hgiven''⟩
    obtain ⟨fuel, rfl⟩ := Nat.exists_eq_add_of_le' (Nat.le_trans (Nat.le_add_left 1 _) hfuel)
    unfold freeExtents readPointer safeFree
    rw [if_neg hne, hload]
    dsimp only at hfreed ⊢
    rw [Exec.pure_eq_ok, Exec.ok_bind, hfreed, Exec.ok_bind]
    refine hall _ ?_
    rw [List.length_cons] at hfuel
    omega

theorem BlockSession.Wf.destroyed (h : t.Wf A b given extents) :
    ∃ n c, (∀ fuel, n ≤ fuel → fbMgrDestroy A b fuel t.mgr t.machine = .ok c) ∧
      (A.given c.storage).Perm given := by
  have hgiven := h.given
  have hmap : extents.map t.mgr.extentAt =
      extents.map fun e => ⟨e, t.mgr.extentSize⟩ := by
    rw [h.layout.extentSize_eq]
    rfl
  rw [hmap] at hgiven
  obtain ⟨s, hfreed, hgiven'⟩ := freeExtents_of_perm h.extentsChained hgiven
  obtain ⟨s', hmgr, hgiven''⟩ := safeFree31_of_perm (b := b) hgiven'
  refine ⟨extents.length + 1, { t.machine with storage := s' }, fun fuel hfuel => ?_, hgiven''⟩
  unfold mgrExtent at hmgr
  dsimp only at hmgr
  unfold fbMgrDestroy safeFree
  rw [hfreed fuel hfuel, Exec.ok_bind]
  dsimp only
  rw [hmgr]
  rfl

theorem BlockSession.Wf.returns {fault : Fault} (h : t.Wf A b given extents)
    (hcall : fbMgrAlloc A b t.mgr t.machine = .error fault) :
    (A.acquire t.machine.storage t.mgr.extentSize).1 = none := by
  cases hfreed : t.freed with
  | cons x rest =>
    obtain ⟨next, hreturns, -⟩ := h.allocFreed hfreed
    rw [hcall] at hreturns
    cases hreturns
  | nil =>
    have hnull : ¬t.mgr.freeList ≠ 0 := fun hne =>
      (h.freedChained.ne_nil_iff.mpr hne) hfreed
    unfold fbMgrAlloc at hcall
    rw [if_neg hnull] at hcall
    split at hcall
    · rcases Exec.bind_eq_error_iff.mp hcall with hextend | ⟨⟨mgr₁, c₁⟩, -, heq⟩
      · unfold FixedBlockMgr.extend safeMalloc at hextend
        split at hextend
        · cases hextend
        · next s hgot => exact congrArg Prod.fst hgot
      · cases heq
    · cases hcall

theorem BlockSession.Wf.sound (h : t.Wf A b given extents) : t.Sound A b given where
  apart := (List.pairwise_append.mp h.layout.blocksApart).1
  inExtent x hx := by
    obtain ⟨e, he, hinside⟩ := h.layout.blockIn x (List.mem_append_left _ hx)
    refine ⟨t.mgr.extentAt e, h.given.mem_iff.mpr
      (List.mem_append_left _ (List.mem_map_of_mem he)), h.layout.extentSize_eq.symm, ?_⟩
    unfold FixedBlockMgr.extentAt
    dsimp only
    rw [Int.add_sub_cancel]
    exact hinside
  reused hne := by
    obtain ⟨x, rest, hfreed⟩ := List.exists_cons_of_ne_nil hne
    obtain ⟨next, hreturns, -⟩ := h.allocFreed hfreed
    exact ⟨x, by rw [hfreed]; exact List.mem_cons_self, next, hreturns⟩
  returns _ hcall := h.returns hcall
  destroyed := h.destroyed

/-- The promises are kept in every run of a manager whose extents have blocks and an `int` for
their size. -/
theorem sound_of_reachable {blockSize blocksPerExtend : ℤ} {c' : Machine σ}
    (hcreate : fbMgrCreate A b blockSize blocksPerExtend c = .ok (mgr, c'))
    (hpointer : (b.sizeofPointer : ℤ) ≤ blockSize) (hperExtend : 0 < blocksPerExtend)
    (hfits : blockSize * blocksPerExtend + FB_HEADER_LENGTH < 2147483648)
    (hrun : Relation.ReflTransGen (BlockStep A b) ⟨mgr, c', [], []⟩ t) :
    t.Sound A b (A.given c.storage) := by
  obtain ⟨extents, hwf⟩ :=
    BlockSession.Wf.run ⟨[], wf_fbMgrCreate hcreate hpointer hperExtend hfits⟩ hrun
  exact hwf.sound

end

/-- One block of a manager. -/
theorem sound_of_alloc : ∃ mgr c t,
    fbMgrCreate Rising.allocator ⟨false, true⟩ 16 4 ⟨Rising.empty, fun _ => .byte 0⟩ =
      .ok (mgr, c) ∧
    Relation.ReflTransGen (BlockStep Rising.allocator ⟨false, true⟩) ⟨mgr, c, [], []⟩ t ∧
    t.Sound Rising.allocator ⟨false, true⟩ [] := by
  obtain ⟨mgr, c, hcreate⟩ : ∃ mgr c, fbMgrCreate Rising.allocator ⟨false, true⟩ 16 4
      ⟨Rising.empty, fun _ => .byte 0⟩ = .ok (mgr, c) := ⟨_, _, rfl⟩
  obtain ⟨block, mgr', c', hcall⟩ : ∃ block mgr' c',
      fbMgrAlloc Rising.allocator ⟨false, true⟩ mgr c = .ok (block, mgr', c') := by
    cases hcreate
    exact ⟨_, _, _, rfl⟩
  have hrun : Relation.ReflTransGen (BlockStep Rising.allocator ⟨false, true⟩) ⟨mgr, c, [], []⟩
      ⟨mgr', c', [block], []⟩ := .single (.alloc hcall)
  exact ⟨mgr, c, _, hcreate, hrun,
    sound_of_reachable hcreate (by decide) (by decide) (by decide) hrun⟩

/-- The blocks of an extent have 4294967296 bytes, of which an `int` keeps none. -/
theorem not_sound_of_alloc : ∃ mgr c t,
    fbMgrCreate Rising.allocator ⟨false, true⟩ 16777216 256 ⟨Rising.empty, fun _ => .byte 0⟩ =
      .ok (mgr, c) ∧
    Relation.ReflTransGen (BlockStep Rising.allocator ⟨false, true⟩) ⟨mgr, c, [], []⟩ t ∧
    ¬t.Sound Rising.allocator ⟨false, true⟩ [] := by
  obtain ⟨block, mgr', c', hcall⟩ : ∃ block mgr' c', fbMgrAlloc Rising.allocator ⟨false, true⟩
      ⟨1, 0, 0, 0, 16777216, 256, 0⟩ ⟨(Rising.empty.acquire 48).2, fun _ => .byte 0⟩ =
        .ok (block, mgr', c') := ⟨_, _, _, rfl⟩
  refine ⟨_, _, _, rfl, .single (.alloc hcall), fun h => ?_⟩
  cases hcall
  obtain ⟨e, he, hsize, -, hstop⟩ := h.inExtent _ List.mem_cons_self
  rcases List.mem_cons.mp he with rfl | he
  · exact absurd hstop (by decide)
  · rw [List.mem_singleton.mp he] at hsize
    exact absurd hsize (by decide)

end Heap
end ZoweCommon
