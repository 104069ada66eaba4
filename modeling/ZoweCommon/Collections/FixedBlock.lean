import Mathlib.Data.Finset.Card
import Mathlib.Data.Set.Image
import ZoweCommon.Basic.Exec

/-! The fixed block manager: equal blocks cut from extents, recycled through a free list
that is threaded through the first word of each freed block. Addresses are natural
numbers and a null pointer is an absent address. -/
namespace ZoweCommon

/-- `safeMalloc n` is where the storage obtained for the `n`-th extent lies. -/
structure FixedBlockMgr where
  safeMalloc : ℕ → ℕ
  allExtents : List ℕ
  freeList : Option ℕ
  currentBlock : ℕ
  blockSize : ℕ
  blocksPerExtend : ℕ
  blocksRemaining : ℕ

def FB_HEADER_LENGTH : ℕ := 8

def fbMgrCreate (safeMalloc : ℕ → ℕ) (blockSize blocksPerExtend : ℕ) : FixedBlockMgr where
  safeMalloc := safeMalloc
  allExtents := []
  freeList := none
  currentBlock := 0
  blockSize := blockSize
  blocksPerExtend := blocksPerExtend
  blocksRemaining := 0

namespace FixedBlockMgr

/-- The bytes `fbMgrAlloc` asks for when it extends. -/
def extentSize (blockSize blocksPerExtend : ℕ) : ℕ := blockSize * blocksPerExtend + FB_HEADER_LENGTH

/-- Put a new extent on the cleanup chain and start cutting blocks after its header. -/
def extend (mgr : FixedBlockMgr) : FixedBlockMgr :=
  let extent := mgr.safeMalloc mgr.allExtents.length
  { mgr with
    allExtents := extent :: mgr.allExtents
    currentBlock := extent + FB_HEADER_LENGTH
    blocksRemaining := mgr.blocksPerExtend }

def cut (mgr : FixedBlockMgr) : ℕ × FixedBlockMgr :=
  (mgr.currentBlock,
    { mgr with
      currentBlock := mgr.currentBlock + mgr.blockSize
      blocksRemaining := mgr.blocksRemaining - 1 })

/-- How many blocks have ever been cut. -/
def issued (mgr : FixedBlockMgr) : ℕ :=
  mgr.allExtents.length * mgr.blocksPerExtend - mgr.blocksRemaining

/-- Where the `b`-th block to be cut lies. -/
def blockAddr (mgr : FixedBlockMgr) (b : ℕ) : ℕ :=
  mgr.safeMalloc (b / mgr.blocksPerExtend) + FB_HEADER_LENGTH + b % mgr.blocksPerExtend * mgr.blockSize

/-- The blocks cut so far, whether live or freed. -/
def blocks (mgr : FixedBlockMgr) : Set ℕ :=
  mgr.blockAddr '' {b | b < mgr.issued}

structure Wf (mgr : FixedBlockMgr) : Prop where
  blockSize_pos : 0 < mgr.blockSize
  blocksPerExtend_pos : 0 < mgr.blocksPerExtend
  remaining_le : mgr.blocksRemaining ≤ mgr.allExtents.length * mgr.blocksPerExtend
  remaining_lt : mgr.blocksRemaining ≤ mgr.blocksPerExtend
  current : 0 < mgr.blocksRemaining → mgr.currentBlock = mgr.blockAddr mgr.issued
  /-- The storage obtained for one extent does not overlap another's. -/
  disjoint : ∀ i j, i < j →
    mgr.safeMalloc i + extentSize mgr.blockSize mgr.blocksPerExtend ≤ mgr.safeMalloc j ∨
    mgr.safeMalloc j + extentSize mgr.blockSize mgr.blocksPerExtend ≤ mgr.safeMalloc i

end FixedBlockMgr

/-- `readLink` reads the first word of a freed block. -/
def fbMgrAlloc (readLink : ℕ → Exec (Option ℕ))
    (mgr : FixedBlockMgr) : Exec (ℕ × FixedBlockMgr) :=
  match mgr.freeList with
  | some result => do
    let next ← readLink result
    return (result, { mgr with freeList := next })
  | none =>
    if mgr.blocksRemaining = 0 then return mgr.extend.cut
    else return mgr.cut

/-- The link to be written to the first word of `block`, and the new manager. -/
def fbMgrFree (mgr : FixedBlockMgr) (block : ℕ) : Option ℕ × FixedBlockMgr :=
  (mgr.freeList, { mgr with freeList := some block })

namespace FixedBlockMgr

variable {mgr : FixedBlockMgr}

theorem wf_fbMgrCreate {safeMalloc : ℕ → ℕ} {blockSize blocksPerExtend : ℕ}
    (hs : 0 < blockSize) (hn : 0 < blocksPerExtend)
    (hd : ∀ i j, i < j → safeMalloc i + extentSize blockSize blocksPerExtend ≤ safeMalloc j ∨
      safeMalloc j + extentSize blockSize blocksPerExtend ≤ safeMalloc i) :
    (fbMgrCreate safeMalloc blockSize blocksPerExtend).Wf where
  blockSize_pos := hs
  blocksPerExtend_pos := hn
  remaining_le := by simp [fbMgrCreate]
  remaining_lt := by simp [fbMgrCreate]
  current := by simp [fbMgrCreate]
  disjoint := hd

@[simp] theorem blocks_fbMgrCreate {safeMalloc : ℕ → ℕ} {blockSize blocksPerExtend : ℕ} :
    (fbMgrCreate safeMalloc blockSize blocksPerExtend).blocks = ∅ := by
  simp [blocks, issued, fbMgrCreate]

theorem Wf.setFreeList (h : mgr.Wf) (q : Option ℕ) :
    ({ mgr with freeList := q } : FixedBlockMgr).Wf :=
  ⟨h.blockSize_pos, h.blocksPerExtend_pos, h.remaining_le, h.remaining_lt, h.current, h.disjoint⟩

@[simp] theorem blocks_setFreeList (q : Option ℕ) :
    ({ mgr with freeList := q } : FixedBlockMgr).blocks = mgr.blocks := rfl

theorem Wf.extend (h : mgr.Wf) (hr : mgr.blocksRemaining = 0) :
    mgr.extend.Wf ∧ 0 < mgr.extend.blocksRemaining ∧
      mgr.extend.blocks = mgr.blocks := by
  have hi : mgr.extend.issued = mgr.issued := by
    simp only [issued, FixedBlockMgr.extend, List.length_cons, hr, Nat.add_mul, Nat.one_mul]
    omega
  have hc : mgr.extend.currentBlock =
      mgr.extend.blockAddr mgr.extend.issued := by
    have hd : mgr.issued = mgr.allExtents.length * mgr.blocksPerExtend := by simp [issued, hr]
    rw [hi, hd]
    simp [blockAddr, FixedBlockMgr.extend, Nat.mul_div_cancel _ h.blocksPerExtend_pos]
  refine ⟨⟨h.blockSize_pos, h.blocksPerExtend_pos, ?_, le_rfl, fun _ => hc, h.disjoint⟩,
    h.blocksPerExtend_pos, ?_⟩
  · simp [FixedBlockMgr.extend, Nat.add_mul]
  · simp only [blocks, hi]
    rfl

theorem Wf.cut (h : mgr.Wf) (hr : 0 < mgr.blocksRemaining) :
    mgr.cut.2.Wf ∧ mgr.cut.1 = mgr.blockAddr mgr.issued ∧
      mgr.cut.2.blocks = insert mgr.cut.1 (mgr.blocks) := by
  have hle := h.remaining_le
  have hi : mgr.cut.2.issued = mgr.issued + 1 := by
    simp only [issued, FixedBlockMgr.cut]
    omega
  have hcur := h.current hr
  refine ⟨⟨h.blockSize_pos, h.blocksPerExtend_pos, ?_, ?_, fun hr' => ?_, h.disjoint⟩, hcur, ?_⟩
  · simp only [FixedBlockMgr.cut]
    omega
  · have := h.remaining_lt
    simp only [FixedBlockMgr.cut]
    omega
  · -- the block after the current one is in the same extent, since one is still left there
    rw [hi]
    change mgr.currentBlock + mgr.blockSize = mgr.blockAddr (mgr.issued + 1)
    have hlt := h.remaining_lt
    have hr2 : 1 < mgr.blocksRemaining := by
      change 0 < mgr.blocksRemaining - 1 at hr'
      omega
    obtain ⟨n, hn⟩ : ∃ n, mgr.allExtents.length = n + 1 := by
      refine Nat.exists_eq_succ_of_ne_zero fun h0 => ?_
      rw [h0] at hle
      omega
    have his : mgr.issued = n * mgr.blocksPerExtend + (mgr.blocksPerExtend - mgr.blocksRemaining) := by
      simp only [issued, hn, Nat.add_mul, Nat.one_mul]
      omega
    have hdiv : ∀ j, j < mgr.blocksPerExtend →
        mgr.blockAddr (n * mgr.blocksPerExtend + j) =
          mgr.safeMalloc n + FB_HEADER_LENGTH + j * mgr.blockSize := by
      intro j hj
      have hd : (n * mgr.blocksPerExtend + j) / mgr.blocksPerExtend = n := by
        rw [Nat.mul_comm, Nat.mul_add_div h.blocksPerExtend_pos, Nat.div_eq_of_lt hj, Nat.add_zero]
      have hm : (n * mgr.blocksPerExtend + j) % mgr.blocksPerExtend = j := by
        rw [Nat.mul_comm, Nat.mul_add_mod, Nat.mod_eq_of_lt hj]
      rw [blockAddr, hd, hm]
    rw [hcur, his, Nat.add_assoc, hdiv _ (by omega), hdiv _ (by omega), Nat.add_mul, Nat.one_mul]
    omega
  · simp only [blocks, hi]
    change mgr.blockAddr '' {b | b < mgr.issued + 1} = _
    rw [show mgr.cut.1 = mgr.blockAddr mgr.issued from hcur, ← Set.image_insert_eq]
    congr 1
    ext b
    simp only [Set.mem_ofPred_eq, Set.mem_insert_iff]
    omega

/-- Different blocks do not start at the same address. -/
theorem Wf.blockAddr_injective (h : mgr.Wf) : Function.Injective mgr.blockAddr := by
  have hin : ∀ b, b % mgr.blocksPerExtend * mgr.blockSize + mgr.blockSize ≤
      mgr.blockSize * mgr.blocksPerExtend := by
    intro b
    have hb := Nat.mod_lt b h.blocksPerExtend_pos
    calc b % mgr.blocksPerExtend * mgr.blockSize + mgr.blockSize
        = (b % mgr.blocksPerExtend + 1) * mgr.blockSize := by rw [Nat.add_mul, Nat.one_mul]
      _ ≤ mgr.blocksPerExtend * mgr.blockSize := Nat.mul_le_mul_right _ hb
      _ = mgr.blockSize * mgr.blocksPerExtend := Nat.mul_comm _ _
  intro b c hbc
  have hpos := h.blockSize_pos
  have hb := hin b
  have hc := hin c
  simp only [blockAddr] at hbc
  have hq : b / mgr.blocksPerExtend = c / mgr.blocksPerExtend := by
    rcases Nat.lt_trichotomy (b / mgr.blocksPerExtend) (c / mgr.blocksPerExtend) with hlt | heq | hgt
    · have := h.disjoint _ _ hlt
      simp only [extentSize] at this
      omega
    · exact heq
    · have := h.disjoint _ _ hgt
      simp only [extentSize] at this
      omega
  rw [hq] at hbc
  have hr : b % mgr.blocksPerExtend = c % mgr.blocksPerExtend := by
    have hmul : b % mgr.blocksPerExtend * mgr.blockSize = c % mgr.blocksPerExtend * mgr.blockSize := by
      omega
    exact Nat.eq_of_mul_eq_mul_right hpos hmul
  rw [← Nat.div_add_mod b mgr.blocksPerExtend, hq, hr, Nat.div_add_mod]

/-- As many addresses as blocks were cut. -/
theorem length_le_issued {as : List ℕ} (hnd : as.Nodup)
    (has : ∀ a ∈ as, a ∈ mgr.blocks) : as.length ≤ mgr.issued := by
  have hsub : as.toFinset ⊆ (Finset.range mgr.issued).image mgr.blockAddr := by
    intro a ha
    obtain ⟨b, hb, rfl⟩ := has a (List.mem_toFinset.mp ha)
    exact Finset.mem_image_of_mem _ (Finset.mem_range.mpr hb)
  calc as.length = as.toFinset.card := (List.toFinset_card_of_nodup hnd).symm
    _ ≤ ((Finset.range mgr.issued).image mgr.blockAddr).card := Finset.card_le_card hsub
    _ ≤ (Finset.range mgr.issued).card := Finset.card_image_le
    _ = mgr.issued := Finset.card_range mgr.issued

/-- A block comes off the free list if there is one, and is otherwise a new one. -/
theorem Wf.fbMgrAlloc_spec (h : mgr.Wf) (readLink : ℕ → Exec (Option ℕ)) :
    (∀ a q, mgr.freeList = some a → readLink a = .ok q →
      fbMgrAlloc readLink mgr = .ok (a, { mgr with freeList := q })) ∧
    (mgr.freeList = none → ∃ a mgr', fbMgrAlloc readLink mgr = .ok (a, mgr') ∧ mgr'.Wf ∧
      mgr'.freeList = none ∧ a ∉ mgr.blocks ∧ mgr'.blocks = insert a mgr.blocks) := by
  refine ⟨fun a q hf hq => by simp [fbMgrAlloc, hf, hq], fun hf => ?_⟩
  have hnew : ∀ m : FixedBlockMgr, m.Wf → 0 < m.blocksRemaining → m.freeList = none →
      m.blocks = mgr.blocks → ∃ a mgr', Except.ok m.cut = Except.ok (ε := Fault) (a, mgr') ∧
        mgr'.Wf ∧ mgr'.freeList = none ∧ a ∉ mgr.blocks ∧ mgr'.blocks = insert a mgr.blocks := by
    intro m hm hr hfm hbm
    obtain ⟨hwf, haddr, hblocks⟩ := hm.cut hr
    refine ⟨m.cut.1, m.cut.2, rfl, hwf, hfm, ?_, by rw [hblocks, hbm]⟩
    rw [← hbm, haddr]
    rintro ⟨b, hb, heq⟩
    rw [hm.blockAddr_injective heq] at hb
    exact absurd (show m.issued < m.issued from hb) (lt_irrefl _)
  unfold fbMgrAlloc
  rw [hf]
  split_ifs with hr
  · obtain ⟨hwf, hpos, hblocks⟩ := h.extend hr
    exact hnew mgr.extend hwf hpos hf hblocks
  · exact hnew mgr h (Nat.pos_of_ne_zero hr) hf rfl

end FixedBlockMgr
end ZoweCommon
