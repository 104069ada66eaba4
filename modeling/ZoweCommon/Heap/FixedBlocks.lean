import ZoweCommon.Heap.SafeMalloc
import ZoweCommon.Lib.PointerMemory

/-! The fixed block manager, with its chains in the memory they are threaded through. -/
namespace ZoweCommon
namespace Heap

open Allocation PointerMemory

structure FixedBlockMgr where
  address : ℤ
  allExtents : ℤ
  freeList : ℤ
  currentBlock : ℤ
  blockSize : ℤ
  blocksPerExtend : ℤ
  blocksRemaining : ℤ

/-- The storage of a process, and what is in it. -/
structure Machine (σ : Type) where
  storage : σ
  memory : Memory

def sizeofFixedBlockMgr (b : Build) : ℤ := if b.lp64 then 48 else 28

def FB_HEADER_LENGTH : ℤ := 8

section

variable {σ : Type} (A : Allocator σ) (b : Build)

/-- What is stored through a null pointer has no meaning. -/
def fbMgrCreate (blockSize blocksPerExtend : ℤ) (c : Machine σ) :
    Exec (FixedBlockMgr × Machine σ) :=
  match safeMalloc A c.storage (sizeofFixedBlockMgr b) with
  | (some mgr, s) =>
    return (
      { address := mgr
        allExtents := 0
        freeList := 0
        currentBlock := 0
        blockSize := toInt32 blockSize
        blocksPerExtend := toInt32 blocksPerExtend
        blocksRemaining := 0 },
      { c with storage := s })
  | (none, _) => throw .undefinedBehaviour

namespace FixedBlockMgr

def extentSize (mgr : FixedBlockMgr) : ℤ :=
  toInt32 (toInt32 (mgr.blockSize * mgr.blocksPerExtend) + FB_HEADER_LENGTH)

/-- A new extent is put on the cleanup chain. -/
def extend (mgr : FixedBlockMgr) (c : Machine σ) : Exec (FixedBlockMgr × Machine σ) :=
  match safeMalloc A c.storage mgr.extentSize with
  | (some extent, s) =>
    return (
      { mgr with
        blocksRemaining := mgr.blocksPerExtend
        allExtents := extent
        currentBlock := extent + FB_HEADER_LENGTH },
      ⟨s, store b.sizeofPointer c.memory extent mgr.allExtents⟩)
  | (none, _) => throw .undefinedBehaviour

def carve (mgr : FixedBlockMgr) : ℤ × FixedBlockMgr :=
  (mgr.currentBlock,
    { mgr with
      currentBlock := mgr.currentBlock + mgr.blockSize
      blocksRemaining := toInt32 (mgr.blocksRemaining - 1) })

end FixedBlockMgr

def readPointer (c : Machine σ) (a : ℤ) : Exec ℤ :=
  match load b.sizeofPointer c.memory a with
  | some pointer => return pointer
  | none => throw .undefinedBehaviour

def fbMgrAlloc (mgr : FixedBlockMgr) (c : Machine σ) : Exec (ℤ × FixedBlockMgr × Machine σ) :=
  if mgr.freeList ≠ 0 then do
    let next ← readPointer b c mgr.freeList
    return (mgr.freeList, { mgr with freeList := next }, c)
  else if mgr.blocksRemaining = 0 then do
    let (mgr, c) ← mgr.extend A b c
    let (result, mgr) := mgr.carve
    return (result, mgr, c)
  else
    let (result, mgr) := mgr.carve
    return (result, mgr, c)

def fbMgrFree (mgr : FixedBlockMgr) (block : ℤ) (c : Machine σ) : FixedBlockMgr × Machine σ :=
  ({ mgr with freeList := block },
    { c with memory := store b.sizeofPointer c.memory block mgr.freeList })

/-- As many turns of the loop as there is fuel. -/
def freeExtents (size : ℤ) : ℕ → ℤ → Machine σ → Exec (Machine σ)
  | 0, _, _ => throw .nonTermination
  | fuel + 1, extent, c =>
    if extent = 0 then return c
    else do
      let nextExtent ← readPointer b c extent
      let s ← safeFree A b c.storage extent size
      freeExtents size fuel nextExtent { c with storage := s }

def fbMgrDestroy (fuel : ℕ) (mgr : FixedBlockMgr) (c : Machine σ) : Exec (Machine σ) := do
  let c ← freeExtents A b mgr.extentSize fuel mgr.allExtents c
  let s ← safeFree A b c.storage mgr.address (sizeofFixedBlockMgr b)
  return { c with storage := s }

end

end Heap
end ZoweCommon
