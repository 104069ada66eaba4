import ZoweCommon.Basic.CString
import ZoweCommon.Basic.Exec

/-! The short-lived heap. Storage is cut from the block that is active, and is given back all at
once. Blocks are nulled when they are made. -/
namespace ZoweCommon

/-- A `char *` to the storage of a heap. -/
structure SLHPointer where
  block : ℕ
  offset : ℕ

structure ShortLivedHeap where
  blockSize : ℕ
  maxBlocks : ℕ
  blockCount : ℕ
  bytesRemaining : ℕ
  activeBlock : Option SLHPointer
  blocks : List (List Byte)

def makeShortLivedHeap (blockSize maxBlocks : ℕ) : ShortLivedHeap :=
  ⟨blockSize, maxBlocks, 0, 0, none, []⟩

namespace ShortLivedHeap

def rounded (size : ℕ) : ℕ := if size % 8 ≠ 0 then size + (8 - size % 8) else size

def extend (slh : ShortLivedHeap) : ShortLivedHeap :=
  { slh with
    activeBlock := some ⟨slh.blocks.length, 0⟩
    blocks := slh.blocks ++ [List.replicate slh.blockSize 0]
    bytesRemaining := slh.blockSize
    blockCount := slh.blockCount + 1 }

/-- A block of its own, which is the active one only if there is no other. -/
def extendOversize (slh : ShortLivedHeap) (size : ℕ) : SLHPointer × ShortLivedHeap :=
  let bigBlock : SLHPointer := ⟨slh.blocks.length, 0⟩
  let slh :=
    if slh.blocks = [] then { slh with activeBlock := some bigBlock, bytesRemaining := 0 } else slh
  (bigBlock, { slh with
    blocks := slh.blocks ++ [List.replicate size 0]
    blockCount := slh.blockCount + 1 })

def room (slh : ShortLivedHeap) (size : ℕ) : SLHPointer × ShortLivedHeap :=
  match slh.activeBlock with
  | some data =>
    if slh.bytesRemaining < size then (⟨slh.blocks.length, 0⟩, slh.extend) else (data, slh)
  | none => (⟨slh.blocks.length, 0⟩, slh.extend)

def cut (slh : ShortLivedHeap) (data : SLHPointer) (size : ℕ) : ShortLivedHeap :=
  { slh with
    bytesRemaining := slh.bytesRemaining - size
    activeBlock := some ⟨data.block, data.offset + size⟩ }

end ShortLivedHeap

/-- A heap that has no room stores through a null pointer. -/
def SLHAlloc (slh : ShortLivedHeap) (size : ℕ) : Exec (SLHPointer × ShortLivedHeap) :=
  let size := ShortLivedHeap.rounded size
  if (size : ℤ) > slh.blockSize * (slh.maxBlocks - slh.blockCount : ℤ) then
    throw .undefinedBehaviour
  else if size > slh.blockSize then return slh.extendOversize size
  else
    let (data, slh) := slh.room size
    return (data, slh.cut data size)

namespace ShortLivedHeap

def memcpy (slh : ShortLivedHeap) (p : SLHPointer) (text : List Byte) : Exec ShortLivedHeap :=
  match slh.blocks[p.block]? with
  | some data =>
    if p.offset + text.length ≤ data.length then
      return { slh with
        blocks := slh.blocks.set p.block
          (data.take p.offset ++ (text ++ data.drop (p.offset + text.length))) }
    else throw .undefinedBehaviour
  | none => throw .undefinedBehaviour

/-- What is read from a pointer up to the terminator, which is to come before the block ends. -/
def string (slh : ShortLivedHeap) (p : SLHPointer) : Exec CString :=
  match slh.blocks[p.block]? with
  | some data =>
    if NoNul (data.drop p.offset) then throw .undefinedBehaviour
    else return .ofBytes (data.drop p.offset)
  | none => throw .undefinedBehaviour

/-- What has not been cut from the active block is null. -/
structure Wf (slh : ShortLivedHeap) : Prop where
  le : slh.bytesRemaining ≤ slh.blockSize
  active : ∀ p, slh.activeBlock = some p → 0 < slh.bytesRemaining → ∃ used,
    used.length = p.offset ∧
      slh.blocks[p.block]? = some (used ++ List.replicate slh.bytesRemaining 0)

theorem wf_makeShortLivedHeap (blockSize maxBlocks : ℕ) :
    (makeShortLivedHeap blockSize maxBlocks).Wf where
  le := Nat.zero_le _
  active p hp := by cases hp

def roomAt (slh : ShortLivedHeap) (size : ℕ) : ℕ :=
  if rounded size > slh.blockSize then rounded size
  else if slh.activeBlock.isSome ∧ rounded size ≤ slh.bytesRemaining then slh.bytesRemaining
  else slh.blockSize

/-- All of the storage can be cut, one after the other. -/
def lasts (slh : ShortLivedHeap) : List ℕ → Bool
  | [] => true
  | size :: sizes =>
    match SLHAlloc slh size with
    | .ok (_, slh) => slh.lasts sizes
    | .error _ => false

variable {slh slh' : ShortLivedHeap} {size : ℕ} {p : SLHPointer}

theorem le_rounded (size : ℕ) : size ≤ rounded size := by
  unfold rounded
  split_ifs <;> omega

theorem rounded_le_roomAt (slh : ShortLivedHeap) (size : ℕ) : rounded size ≤ slh.roomAt size := by
  unfold roomAt
  split_ifs with hbig hroom
  · exact Nat.le_refl _
  · exact hroom.2
  · omega

theorem blocks_extendOversize (slh : ShortLivedHeap) (size : ℕ) :
    (slh.extendOversize size).2.blocks = slh.blocks ++ [List.replicate size 0] := by
  unfold extendOversize
  dsimp only
  split_ifs <;> rfl

/-- The rest of the block to cut from is null. -/
theorem Wf.room (h : slh.Wf) (hsize : 0 < size) : ∃ used,
    used.length = (slh.room size).1.offset ∧ (slh.room size).2.blocks[(slh.room size).1.block]? =
      some (used ++ List.replicate (slh.room size).2.bytesRemaining 0) := by
  unfold ShortLivedHeap.room
  cases hactive : slh.activeBlock with
  | none => exact ⟨[], rfl, List.getElem?_concat_length⟩
  | some data =>
    dsimp only
    by_cases hlt : slh.bytesRemaining < size
    · rw [if_pos hlt]
      exact ⟨[], rfl, List.getElem?_concat_length⟩
    · rw [if_neg hlt]
      exact h.active data hactive (by omega)

theorem bytesRemaining_room (slh : ShortLivedHeap) (size : ℕ) :
    (slh.room size).2.bytesRemaining =
      if slh.activeBlock.isSome ∧ size ≤ slh.bytesRemaining then slh.bytesRemaining
      else slh.blockSize := by
  unfold ShortLivedHeap.room
  cases hactive : slh.activeBlock with
  | none =>
    rw [if_neg fun hand => by cases hand.1]
    rfl
  | some data =>
    dsimp only
    by_cases hlt : slh.bytesRemaining < size
    · rw [if_pos hlt, if_neg fun hand => absurd hand.2 (by omega)]
      rfl
    · rw [if_neg hlt, if_pos ⟨rfl, by omega⟩]

/-- The storage that is cut is null, and so is the rest of its block. -/
theorem Wf.SLHAlloc (h : slh.Wf) (hsize : 0 < size)
    (hrun : ZoweCommon.SLHAlloc slh size = .ok (p, slh')) :
    ∃ used, used.length = p.offset ∧
      slh'.blocks[p.block]? = some (used ++ List.replicate (slh.roomAt size) 0) := by
  have hpos : 0 < rounded size := hsize.trans_le (le_rounded size)
  unfold ZoweCommon.SLHAlloc at hrun
  dsimp only at hrun
  unfold roomAt
  split_ifs at hrun with hmore hbig
  · rw [if_pos hbig]
    have heq : slh.extendOversize (rounded size) = (p, slh') := Except.ok.inj hrun
    have hp : p = ⟨slh.blocks.length, 0⟩ := (congrArg Prod.fst heq).symm
    have hblocks := blocks_extendOversize slh (rounded size)
    rw [heq] at hblocks
    rw [hblocks, hp]
    exact ⟨[], rfl, List.getElem?_concat_length⟩
  · rw [if_neg hbig, ← bytesRemaining_room]
    have heq : ((slh.room (rounded size)).1,
        (slh.room (rounded size)).2.cut (slh.room (rounded size)).1 (rounded size)) = (p, slh') :=
      Except.ok.inj hrun
    obtain ⟨rfl, rfl⟩ := Prod.mk.inj heq
    exact h.room hpos

/-- What was copied is what is read, and after it what was there before. -/
theorem memcpy_ok {text used rest : List Byte} (hused : used.length = p.offset)
    (hdata : slh.blocks[p.block]? = some (used ++ rest)) (hroom : text.length ≤ rest.length) :
    slh.memcpy p text = .ok { slh with
      blocks := slh.blocks.set p.block (used ++ (text ++ rest.drop text.length)) } := by
  unfold memcpy
  rw [hdata]
  dsimp only
  rw [if_pos (by rw [List.length_append]; omega), ← hused, List.take_left, ← List.drop_drop,
    List.drop_left]
  rfl

/-- A text copied to storage of its size ends where the null bytes of the block go on, unless it
reaches the end of the block. -/
theorem Wf.copy {text : List Byte} (h : slh.Wf) (hnul : NoNul text) (hne : 0 < text.length)
    (hrun : ZoweCommon.SLHAlloc slh text.length = .ok (p, slh')) :
    ∃ slh₂, slh'.memcpy p text = .ok slh₂ ∧ slh₂.string p =
      if text.length < slh.roomAt text.length then .ok (.ofBytes text)
      else .error .undefinedBehaviour := by
  obtain ⟨used, hused, hdata⟩ := h.SLHAlloc hne hrun
  obtain ⟨hlt, -⟩ := List.getElem?_eq_some_iff.mp hdata
  have hle : text.length ≤ slh.roomAt text.length :=
    (le_rounded text.length).trans (slh.rounded_le_roomAt text.length)
  refine ⟨_, memcpy_ok hused hdata (by rwa [List.length_replicate]), ?_⟩
  unfold string
  dsimp only
  rw [List.getElem?_set_self hlt]
  dsimp only
  rw [← hused, List.drop_left, List.drop_replicate]
  by_cases hroom : text.length < slh.roomAt text.length
  · obtain ⟨k, hk⟩ := Nat.exists_eq_add_of_lt hroom
    have hzeros : slh.roomAt text.length - text.length = k + 1 := by omega
    have hend : ¬NoNul (text ++ 0 :: List.replicate k 0) :=
      fun hnone => hnone 0 (List.mem_append_right _ List.mem_cons_self) rfl
    rw [if_pos hroom, hzeros, List.replicate_succ, if_neg hend, CString.ofBytes_terminated]
    rfl
  · have hzeros : slh.roomAt text.length - text.length = 0 := by omega
    rw [if_neg hroom, hzeros, List.replicate_zero, List.append_nil, if_pos hnul]
    rfl

theorem string_memcpy {text : List Byte} (hrun : slh.memcpy p text = .ok slh') :
    ∃ rest, slh'.string p =
      if NoNul (text ++ rest) then .error .undefinedBehaviour else .ok (.ofBytes (text ++ rest)) := by
  unfold memcpy at hrun
  cases hdata : slh.blocks[p.block]? with
  | none =>
    rw [hdata] at hrun
    cases hrun
  | some data =>
    rw [hdata] at hrun
    dsimp only at hrun
    split_ifs at hrun with hroom
    cases hrun
    obtain ⟨hlt, -⟩ := List.getElem?_eq_some_iff.mp hdata
    refine ⟨data.drop (p.offset + text.length), ?_⟩
    unfold string
    dsimp only
    rw [List.getElem?_set_self hlt]
    dsimp only
    have htaken : (data.take p.offset).length = p.offset := by
      rw [List.length_take]
      omega
    rw [List.drop_left' htaken]
    rfl

theorem lasts_cons {size : ℕ} {sizes : List ℕ} : slh.lasts (size :: sizes) = true ↔
    ∃ p slh', SLHAlloc slh size = .ok (p, slh') ∧ slh'.lasts sizes = true := by
  rw [lasts]
  cases SLHAlloc slh size with
  | error fault =>
    refine iff_of_false Bool.false_ne_true ?_
    rintro ⟨p, slh', hrun, -⟩
    cases hrun
  | ok r =>
    constructor
    · intro h
      exact ⟨r.1, r.2, rfl, h⟩
    · rintro ⟨p, slh', hrun, h⟩
      cases hrun
      exact h

/-! What is in the storage does not matter to what can be cut -/

structure Alike (slh slh' : ShortLivedHeap) : Prop where
  blockSize : slh'.blockSize = slh.blockSize
  maxBlocks : slh'.maxBlocks = slh.maxBlocks
  blockCount : slh'.blockCount = slh.blockCount
  bytesRemaining : slh'.bytesRemaining = slh.bytesRemaining
  activeBlock : slh'.activeBlock = slh.activeBlock
  blocks : slh'.blocks.length = slh.blocks.length

theorem Alike.symm (h : Alike slh slh') : Alike slh' slh :=
  ⟨h.1.symm, h.2.symm, h.3.symm, h.4.symm, h.5.symm, h.6.symm⟩

theorem Alike.extend (h : Alike slh slh') : Alike slh.extend slh'.extend := by
  unfold ShortLivedHeap.extend
  refine ⟨h.1, h.2, congrArg (· + 1) h.3, h.1, ?_, ?_⟩
  · dsimp only
    rw [h.blocks]
  · rw [List.length_append, List.length_append, h.blocks]
    rfl

theorem Alike.room (h : Alike slh slh') (size : ℕ) :
    (slh'.room size).1 = (slh.room size).1 ∧ Alike (slh.room size).2 (slh'.room size).2 := by
  unfold ShortLivedHeap.room
  rw [h.activeBlock, h.bytesRemaining, h.blocks]
  cases slh.activeBlock with
  | none => exact ⟨rfl, h.extend⟩
  | some data =>
    dsimp only
    split_ifs
    · exact ⟨rfl, h.extend⟩
    · exact ⟨rfl, h⟩

theorem Alike.extendOversize (h : Alike slh slh') (size : ℕ) :
    (slh'.extendOversize size).1 = (slh.extendOversize size).1 ∧
      Alike (slh.extendOversize size).2 (slh'.extendOversize size).2 := by
  have hnil : slh'.blocks = [] ↔ slh.blocks = [] := by
    rw [← List.length_eq_zero_iff, ← List.length_eq_zero_iff, h.blocks]
  have hlength : (slh'.blocks ++ [List.replicate size (0 : Byte)]).length =
      (slh.blocks ++ [List.replicate size (0 : Byte)]).length := by
    rw [List.length_append, List.length_append, h.blocks]
  unfold ShortLivedHeap.extendOversize
  dsimp only
  by_cases hempty : slh.blocks = []
  · rw [if_pos hempty, if_pos (hnil.mpr hempty), h.blocks]
    exact ⟨rfl, h.1, h.2, congrArg (· + 1) h.3, rfl, rfl, hlength⟩
  · rw [if_neg hempty, if_neg fun h => hempty (hnil.mp h), h.blocks]
    exact ⟨rfl, h.1, h.2, congrArg (· + 1) h.3, h.4, h.5, hlength⟩

theorem Alike.cut (h : Alike slh slh') (data : SLHPointer) (size : ℕ) :
    Alike (slh.cut data size) (slh'.cut data size) :=
  ⟨h.1, h.2, h.3, congrArg (· - size) h.4, rfl, h.6⟩

theorem Alike.SLHAlloc {a' : ShortLivedHeap} (h : Alike slh slh')
    (hrun : ZoweCommon.SLHAlloc slh size = .ok (p, a')) :
    ∃ b', ZoweCommon.SLHAlloc slh' size = .ok (p, b') ∧ Alike a' b' := by
  unfold ZoweCommon.SLHAlloc at hrun ⊢
  dsimp only at hrun ⊢
  rw [h.blockSize, h.maxBlocks, h.blockCount]
  split_ifs at hrun ⊢ with hmore hbig
  · obtain ⟨hpointer, halike⟩ := h.extendOversize (rounded size)
    have heq : slh.extendOversize (rounded size) = (p, a') := Except.ok.inj hrun
    rw [heq] at hpointer halike
    exact ⟨(slh'.extendOversize (rounded size)).2, congrArg Except.ok (Prod.ext hpointer rfl),
      halike⟩
  · obtain ⟨hpointer, halike⟩ := h.room (rounded size)
    have heq : ((slh.room (rounded size)).1,
        (slh.room (rounded size)).2.cut (slh.room (rounded size)).1 (rounded size)) = (p, a') :=
      Except.ok.inj hrun
    obtain ⟨rfl, rfl⟩ := Prod.mk.inj heq
    refine ⟨(slh'.room (rounded size)).2.cut (slh'.room (rounded size)).1 (rounded size),
      congrArg Except.ok (Prod.ext hpointer rfl), ?_⟩
    rw [hpointer]
    exact halike.cut _ _

theorem Alike.lasts (h : Alike slh slh') {sizes : List ℕ} (hlasts : slh.lasts sizes = true) :
    slh'.lasts sizes = true := by
  induction sizes generalizing slh slh' with
  | nil => rfl
  | cons size sizes ih =>
    obtain ⟨p, a', hrun, hrest⟩ := lasts_cons.mp hlasts
    obtain ⟨b', hrun', halike⟩ := h.SLHAlloc hrun
    exact lasts_cons.mpr ⟨p, b', hrun', ih halike hrest⟩

theorem Alike.lasts_iff (h : Alike slh slh') {sizes : List ℕ} :
    slh'.lasts sizes = true ↔ slh.lasts sizes = true :=
  ⟨h.symm.lasts, h.lasts⟩

theorem alike_memcpy {text : List Byte} (hrun : slh.memcpy p text = .ok slh') : Alike slh slh' := by
  unfold memcpy at hrun
  cases hdata : slh.blocks[p.block]? with
  | none =>
    rw [hdata] at hrun
    cases hrun
  | some data =>
    rw [hdata] at hrun
    dsimp only at hrun
    split_ifs at hrun
    cases hrun
    exact ⟨rfl, rfl, rfl, rfl, rfl, List.length_set⟩

end ShortLivedHeap
end ZoweCommon
