import ZoweCommon.Heap.ShortLivedBlocks
import ZoweCommon.Lib.Packing

/-! How much of its blocks a short-lived heap delivers. -/
namespace ZoweCommon
namespace Heap

open Allocation Packing

section

variable {σ : Type} (A : Allocator σ) (b : Build)

/-- The heap is made, and every request gets storage. -/
def Delivers (B M : ℤ) (is64 : Bool) (p : Process σ) (sizes : List ℤ) : Prop :=
  ∃ slh p' t, makeShortLivedHeapInternal A b B M is64 p = .ok (slh, p') ∧
    sizes.foldlM (Session.alloc A b) ⟨slh, p', []⟩ = .ok t ∧ t.ranges.length = sizes.length

/-- The heap is where packing in order is. -/
structure Session.Tracks (B M : ℤ) (t : Session σ) (k : Packing.State) : Prop where
  blockSize : t.slh.blockSize = B
  maxBlocks : t.slh.maxBlocks = M
  blockCount : t.slh.blockCount = k.count
  bytesRemaining : t.slh.bytesRemaining = k.left
  nonneg : 0 ≤ k.left
  le : k.left ≤ B
  active : 0 < k.left → t.slh.activeBlock.isSome
  obtains : t.slh.is64 → b.lp64

end

section

variable {σ : Type} {A : Allocator σ} {b : Build} {B M size : ℤ} {is64 : Bool} {p p' : Process σ}
  {s : σ} {slh : ShortLivedHeap} {t t' : Session σ} {k : Packing.State} {sizes : List ℤ}

theorem le_mul {B n : ℤ} (hB : 0 ≤ B) (hn : 1 ≤ n) : B ≤ B * n := by
  have hle := Int.mul_le_mul_of_nonneg_left hn hB
  rwa [Int.mul_one] at hle

theorem rounded_of_dvd (h : 8 ∣ size) : rounded size = size :=
  if_neg fun hne => hne (Int.emod_eq_zero_of_dvd h)

/-- Without one, it is refused, whatever the active block has left. -/
theorem Session.Tracks.refused (h : t.Tracks b B M k) (hdvd : 8 ∣ size) (hsize : 0 < size)
    (hcount : (k.count : ℤ) = M) : t.alloc A b size = .error .undefinedBehaviour := by
  have hleft : t.slh.remainingHeapBytes = 0 := by
    unfold ShortLivedHeap.remainingHeapBytes
    rw [h.maxBlocks, h.blockCount, hcount, Int.sub_self]
    exact congrArg toInt32 (Int.mul_zero _)
  unfold Session.alloc Heap.SLHAlloc
  dsimp only
  rw [if_pos (by rw [hleft, rounded_of_dvd hdvd]; exact hsize)]
  rfl

section

variable (hstorage : ∀ s n, 0 < n → (A.acquire s n).1.isSome)

include hstorage

theorem exists_acquire {n : ℤ} (hn : 0 < n) : ∃ a s', A.acquire s n = (some a, s') := by
  obtain ⟨a, ha⟩ := Option.isSome_iff_exists.mp (hstorage s n hn)
  exact ⟨a, (A.acquire s n).2, Prod.ext ha rfl⟩

theorem exists_newBlock (hobtains : slh.is64 → b.lp64) {n : ℤ} (hn : 0 ≤ n)
    (hn' : n < 2147483644) : ∃ data p', slh.newBlock A b n p = (some data, p') := by
  unfold ShortLivedHeap.newBlock
  rw [toInt32_of_isInt32 ⟨by omega, by omega⟩]
  have hgot : ∃ a s', (if slh.is64 then safeMalloc64 A b p.storage (n + 4)
      else safeMalloc31 A p.storage (n + 4)) = (some a, s') := by
    unfold safeMalloc64 safeMalloc31
    split_ifs with h64 hlp64
    · have hle := b.le_size64 (n + 4)
      exact exists_acquire hstorage (by omega)
    · exact absurd (hobtains h64) hlp64
    · exact exists_acquire hstorage (by omega)
  obtain ⟨a, s', hgot⟩ := hgot
  rw [hgot]
  exact ⟨_, _, rfl⟩

theorem exists_cons (b : Build) (data : ℤ) (list : List ListElt) :
    ∃ list' s', cons A b data list s = .ok (list', s') := by
  obtain ⟨a, s', hgot⟩ := exists_acquire (s := s) (n := sizeofListElt b) hstorage (by
    unfold sizeofListElt Build.sizeofPointer
    split_ifs <;> decide)
  unfold cons safeMalloc
  rw [hgot]
  exact ⟨_, _, rfl⟩

theorem exists_extend (hobtains : slh.is64 → b.lp64) (hn : 0 ≤ slh.blockSize)
    (hn' : slh.blockSize < 2147483644) : ∃ data list p', slh.extend A b p = .ok (some data,
      { slh with
        activeBlock := some data
        blockChain := list
        bytesRemaining := slh.blockSize
        blockCount := toInt32 (slh.blockCount + 1) }, p') := by
  obtain ⟨data, p₁, hnew⟩ := exists_newBlock (p := p) hstorage hobtains hn hn'
  obtain ⟨list, s', hcons⟩ := exists_cons (s := p₁.storage) hstorage b data slh.blockChain
  refine ⟨data, list, { p₁ with storage := s' }, ?_⟩
  unfold ShortLivedHeap.extend
  rw [hnew]
  dsimp only
  rw [hcons]
  rfl

/-- With a block to spare, a request is packed. -/
theorem Session.Tracks.alloc (h : t.Tracks b B M k) (hB : 8 ∣ B) (hcapacity : B * M < 2147483648)
    (hdvd : 8 ∣ size) (hsize : 0 < size) (hle : size ≤ B) (hspare : k.count < M) :
    ∃ t', t.alloc A b size = .ok t' ∧ t'.Tracks b B M (pack B k size) ∧
      t'.ranges.length = t.ranges.length + 1 := by
  have hcapacity' : B ≤ B * (M - k.count) ∧ B * (M - k.count) ≤ B * M :=
    ⟨le_mul (by omega) (by omega), Int.mul_le_mul_of_nonneg_left (by omega) (by omega)⟩
  have hM : M ≤ M * B := le_mul (by omega) (by omega)
  rw [Int.mul_comm] at hM
  have hremaining : t.slh.remainingHeapBytes = B * (M - k.count) := by
    unfold ShortLivedHeap.remainingHeapBytes
    rw [h.blockSize, h.maxBlocks, h.blockCount, toInt32_of_isInt32 (n := M - k.count)
      ⟨by omega, by omega⟩, toInt32_of_isInt32 ⟨by omega, by omega⟩]
  have hnotRefused : ¬rounded size > t.slh.remainingHeapBytes := by
    rw [rounded_of_dvd hdvd, hremaining]
    omega
  have hnotBig : ¬rounded size > t.slh.blockSize := by
    rw [rounded_of_dvd hdvd, h.blockSize]
    omega
  have hnonneg := h.nonneg
  have hleft := h.le
  unfold Session.alloc Heap.SLHAlloc
  dsimp only
  rw [if_neg hnotRefused, if_neg hnotBig, rounded_of_dvd hdvd]
  by_cases hless : k.left < size
  · have husable : t.slh.usable size = none := if_pos (by rw [h.bytesRemaining]; exact hless)
    have hpack : pack B k size = ⟨k.count + 1, B - size⟩ := if_pos hless
    obtain ⟨data, list, p', hextend⟩ := exists_extend (p := t.process) hstorage h.obtains
      (by rw [h.blockSize]; omega) (by rw [h.blockSize]; omega)
    rw [husable, hextend, hpack]
    refine ⟨_, rfl, ⟨h.blockSize, h.maxBlocks, ?_, ?_, ?_, ?_, fun _ => rfl, h.obtains⟩, ?_⟩
    · unfold ShortLivedHeap.cut
      dsimp only
      rw [h.blockCount, toInt32_of_isInt32 ⟨by omega, by omega⟩, Int.natCast_succ]
    · unfold ShortLivedHeap.cut
      dsimp only
      rw [h.blockSize, toInt32_of_isInt32 ⟨by omega, by omega⟩]
    · dsimp only
      omega
    · dsimp only
      omega
    · rfl
  · obtain ⟨data, hdata⟩ := Option.isSome_iff_exists.mp (h.active (by omega))
    have husable : t.slh.usable size = some data := by
      unfold ShortLivedHeap.usable
      rw [if_neg (by rw [h.bytesRemaining]; exact hless), hdata]
    have hpack : pack B k size = ⟨k.count, k.left - size⟩ := if_neg hless
    rw [husable, hpack]
    refine ⟨_, rfl, ⟨h.blockSize, h.maxBlocks, h.blockCount, ?_, ?_, ?_, fun _ => rfl,
      h.obtains⟩, ?_⟩
    · unfold ShortLivedHeap.cut
      dsimp only
      rw [h.bytesRemaining, toInt32_of_isInt32 ⟨by omega, by omega⟩]
    · dsimp only
      omega
    · dsimp only
      omega
    · rfl

/-- A run delivers if there is a block to spare before its last request. -/
theorem Session.Tracks.run_iff (h : t.Tracks b B M k) (hB : 8 ∣ B) (hcapacity : B * M < 2147483648)
    (hcount : (k.count : ℤ) ≤ M) (hsizes : ∀ size ∈ sizes, 8 ∣ size ∧ 0 < size ∧ size ≤ B) :
    (∃ t', sizes.foldlM (Session.alloc A b) t = .ok t' ∧
      t'.ranges.length = t.ranges.length + sizes.length) ↔
    sizes = [] ∨ ((packAll B k sizes.dropLast).count : ℤ) < M := by
  induction sizes generalizing t k with
  | nil => exact iff_of_true ⟨t, rfl, rfl⟩ (.inl rfl)
  | cons size sizes ih =>
    obtain ⟨hdvd, hpos, hle⟩ := hsizes size List.mem_cons_self
    have hrest := fun n hn => hsizes n (List.mem_cons_of_mem _ hn)
    by_cases hspare : k.count < M
    · obtain ⟨t₁, hcall, htracks, hlength⟩ := h.alloc hstorage hB hcapacity hdvd hpos hle hspare
      have hcount₁ : ((pack B k size).count : ℤ) ≤ M := by
        unfold pack
        split_ifs <;> dsimp only <;> omega
      have hstep := ih htracks hcount₁ hrest
      have hlengths : t₁.ranges.length + sizes.length =
          t.ranges.length + (size :: sizes).length := by
        rw [hlength, List.length_cons]
        omega
      rw [hlengths] at hstep
      rw [List.foldlM_cons, hcall, Exec.ok_bind, hstep]
      cases sizes with
      | nil => exact iff_of_true (.inl rfl) (.inr hspare)
      | cons size' sizes =>
        rw [List.dropLast_cons_cons, packAll_cons]
        simp
    · have hmono := @le_count_packAll B k (size :: sizes).dropLast
      refine iff_of_false ?_ ?_
      · rintro ⟨t', hrun, -⟩
        rw [List.foldlM_cons, h.refused hdvd hpos (by omega)] at hrun
        cases hrun
      · rintro (hnil | hlt)
        · cases hnil
        · omega

/-- Nothing is ever delivered in a block of no bytes but nothing. -/
theorem exists_run_zero (hblock : t.slh.blockSize = 0) (hremaining : t.slh.bytesRemaining = 0)
    (hobtains : t.slh.is64 → b.lp64) (hsizes : ∀ size ∈ sizes, size = 0) :
    ∃ t', sizes.foldlM (Session.alloc A b) t = .ok t' ∧
      t'.ranges.length = t.ranges.length + sizes.length := by
  induction sizes generalizing t with
  | nil => exact ⟨t, rfl, rfl⟩
  | cons size sizes ih =>
    obtain rfl := hsizes size List.mem_cons_self
    have hrounded : rounded 0 = 0 := by decide
    have hleft : t.slh.remainingHeapBytes = 0 := by
      unfold ShortLivedHeap.remainingHeapBytes
      rw [hblock, Int.zero_mul]
      rfl
    have hstep : ∃ t₁, t.alloc A b 0 = .ok t₁ ∧ t₁.slh.blockSize = 0 ∧
        t₁.slh.bytesRemaining = 0 ∧ t₁.slh.is64 = t.slh.is64 ∧
        t₁.ranges.length = t.ranges.length + 1 := by
      unfold Session.alloc Heap.SLHAlloc
      dsimp only
      rw [hrounded, if_neg (by omega), if_neg (by omega)]
      have husable : t.slh.usable 0 = t.slh.activeBlock := if_neg (by omega)
      rw [husable]
      cases hactive : t.slh.activeBlock with
      | some data => exact ⟨_, rfl, hblock, by
          unfold ShortLivedHeap.cut
          dsimp only
          rw [hremaining]
          rfl, rfl, rfl⟩
      | none =>
        obtain ⟨data, list, p', hextend⟩ := exists_extend (p := t.process) hstorage hobtains
          (by omega) (by omega)
        rw [hextend]
        exact ⟨_, rfl, hblock, by
          unfold ShortLivedHeap.cut
          dsimp only
          rw [hblock]
          rfl, rfl, rfl⟩
    obtain ⟨t₁, hcall, hblock₁, hremaining₁, h64, hlength⟩ := hstep
    obtain ⟨t', hrun, hlength'⟩ := ih hblock₁ hremaining₁ (by rw [h64]; exact hobtains)
      fun n hn => hsizes n (List.mem_cons_of_mem _ hn)
    refine ⟨t', ?_, ?_⟩
    · rw [List.foldlM_cons, hcall]
      exact hrun
    · rw [hlength', hlength, List.length_cons]
      omega

theorem exists_make (b : Build) (B M : ℤ) (is64 : Bool) (p : Process σ) :
    ∃ slh p', makeShortLivedHeapInternal A b B M is64 p = .ok (slh, p') ∧
      slh.blockSize = toInt32 B ∧ slh.maxBlocks = toInt32 M ∧ slh.blockCount = 0 ∧
      slh.bytesRemaining = 0 ∧ slh.is64 = is64 := by
  obtain ⟨a, s', hgot⟩ := exists_acquire (s := p.storage) (n := sizeofShortLivedHeap b) hstorage (by
    unfold sizeofShortLivedHeap
    split_ifs <;> decide)
  unfold makeShortLivedHeapInternal safeMalloc
  rw [hgot]
  exact ⟨_, _, rfl, rfl, rfl, rfl, rfl, rfl⟩

end

end

/-- Where the system has storage, the capacity is delivered if and only if all but the last of the
requests fit, in their order, in all but one of the blocks. -/
theorem delivers_iff {σ : Type} {A : Allocator σ} {b : Build} {B M : ℤ} {is64 : Bool}
    {p : Process σ} {sizes : List ℤ} (hstorage : ∀ s n, 0 < n → (A.acquire s n).1.isSome)
    (hobtains : is64 → b.lp64) (hnonneg : 0 ≤ B) (hB : 8 ∣ B) (hcapacity : B * M < 2147483648)
    (hsizes : ∀ size ∈ sizes, 0 ≤ size ∧ 8 ∣ size ∧ size ∣ B) (htotal : sizes.sum ≤ B * M) :
    Delivers A b B M is64 p sizes ↔ sizes = [] ∨ B = 0 ∨ FitsBelow B M sizes.dropLast := by
  obtain ⟨slh, p', hmake, hblock, hmax, hcount, hremaining, h64⟩ :=
    exists_make hstorage b B M is64 p
  have hruns : Delivers A b B M is64 p sizes ↔
      ∃ t', sizes.foldlM (Session.alloc A b) ⟨slh, p', []⟩ = .ok t' ∧
        t'.ranges.length = ([] : List Extent).length + sizes.length := by
    rw [List.length_nil, Nat.zero_add]
    constructor
    · rintro ⟨slh', p'', t', hmake', hrun, hlength⟩
      rw [hmake] at hmake'
      cases hmake'
      exact ⟨t', hrun, hlength⟩
    · rintro ⟨t', hrun, hlength⟩
      exact ⟨slh, p', t', hmake, hrun, hlength⟩
  rw [hruns]
  rcases Int.lt_or_eq_of_le hnonneg with hpos | rfl
  swap
  · have hzero : ∀ size ∈ sizes, size = 0 := by
      intro size hsize
      obtain ⟨before, after, rfl⟩ := List.append_of_mem hsize
      have hbefore := sum_nonneg fun n hn => (hsizes n (List.mem_append_left _ hn)).1
      have hafter := sum_nonneg fun n hn =>
        (hsizes n (List.mem_append_right _ (List.mem_cons_of_mem _ hn))).1
      have hsize := (hsizes size hsize).1
      rw [List.sum_append, List.sum_cons, Int.zero_mul] at htotal
      omega
    exact iff_of_true (exists_run_zero hstorage hblock hremaining (by rw [h64]; exact hobtains)
      hzero) (.inr (.inl rfl))
  have hpositive : ∀ size ∈ sizes, 8 ∣ size ∧ 0 < size ∧ size ≤ B := by
    intro size hsize
    obtain ⟨hsize, hdvd, hB⟩ := hsizes size hsize
    have hle := Int.le_of_dvd hpos hB
    refine ⟨hdvd, ?_, hle⟩
    rcases Int.lt_or_eq_of_le hsize with hsize | rfl
    · exact hsize
    · exact absurd (Int.zero_dvd.mp hB) (by omega)
  cases hsizes' : sizes with
  | nil => exact iff_of_true ⟨_, rfl, rfl⟩ (.inl rfl)
  | cons size rest =>
    rw [← hsizes']
    have hM : 1 ≤ M := by
      have hsum := sum_nonneg fun n hn =>
        (hsizes n (by rw [hsizes']; exact List.mem_cons_of_mem _ hn)).1
      have hsize := (hpositive size (by rw [hsizes']; exact List.mem_cons_self)).2.1
      rw [hsizes', List.sum_cons] at htotal
      by_contra hM
      have hle := Int.mul_le_mul_of_nonneg_left (b := 0) (a := M) (by omega) hnonneg
      omega
    have hints : B < 2147483648 ∧ M < 2147483648 := by
      have hleft : B ≤ B * M := le_mul hnonneg hM
      have hright : M ≤ M * B := le_mul (by omega) (by omega)
      rw [Int.mul_comm] at hright
      omega
    have htracks : (⟨slh, p', []⟩ : Session σ).Tracks b B M Packing.start :=
      { blockSize := by rw [hblock, toInt32_of_isInt32 ⟨by omega, by omega⟩]
        maxBlocks := by rw [hmax, toInt32_of_isInt32 ⟨by omega, by omega⟩]
        blockCount := hcount
        bytesRemaining := hremaining
        nonneg := Int.le_refl 0
        le := hnonneg
        active := fun hlt => absurd hlt (Int.lt_irrefl 0)
        obtains := by rw [h64]; exact hobtains }
    rw [htracks.run_iff hstorage hB hcapacity (by unfold Packing.start; dsimp only; omega)
        hpositive,
      count_packAll_lt_iff fun n hn =>
        (hpositive n (List.dropLast_subset sizes hn)).2]
    refine or_congr_right ⟨.inr, ?_⟩
    rintro (hzero | hfits)
    · omega
    · exact hfits

/-- Two requests of a heap of two blocks. -/
theorem delivers_eight_eight :
    Delivers Rising.allocator ⟨false, true⟩ 16 2 false ⟨Rising.empty, fun _ => 0⟩ [8, 8] := by
  refine (delivers_iff (fun s n hn => ?_) (fun h => by cases h) (by decide) (by decide) (by decide)
    (by decide) (by decide)).mpr (.inr (.inr ⟨[[8]], rfl, by decide, by decide⟩))
  have hsome : (Rising.acquire s n).1 = some s.top := by
    unfold Rising.acquire
    rw [dif_pos (Int.le_of_lt hn)]
  exact Option.isSome_of_eq_some hsome

/-- The second half of the only block is refused. -/
theorem not_delivers_eight_eight :
    ¬Delivers Rising.allocator ⟨false, true⟩ 16 1 false ⟨Rising.empty, fun _ => 0⟩ [8, 8] := by
  rintro ⟨slh, p, t, hmake, hrun, -⟩
  cases hmake
  cases hrun

end Heap
end ZoweCommon
