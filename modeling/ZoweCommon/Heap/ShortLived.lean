import Mathlib.Logic.Function.Basic
import ZoweCommon.Heap.SafeMalloc

/-! The short-lived heap, with the storage of its blocks. -/
namespace ZoweCommon
namespace Heap

open Allocation

/-- An element of a chain, and where its data are. -/
structure ListElt where
  address : ℤ
  data : ℤ

structure ShortLivedHeap where
  address : ℤ
  activeBlock : Option ℤ
  blockChain : List ListElt
  is64 : Bool
  bytesRemaining : ℤ
  maxBlocks : ℤ
  blockCount : ℤ
  blockSize : ℤ

def sizeofListElt (b : Build) : ℤ := 2 * b.sizeofPointer

def sizeofShortLivedHeap (b : Build) : ℤ := if b.lp64 then 48 else 36

/-- The storage of a process, and the `int` before the data of each block. -/
structure Process (σ : Type) where
  storage : σ
  sizeAt : ℤ → ℤ

section

variable {σ : Type} (A : Allocator σ) (b : Build)

/-- What is stored through a null pointer has no meaning. -/
def cons (data : ℤ) (list : List ListElt) (s : σ) : Exec (List ListElt × σ) :=
  match safeMalloc A s (sizeofListElt b) with
  | (some newList, s) => return (⟨newList, data⟩ :: list, s)
  | (none, _) => throw .undefinedBehaviour

def makeShortLivedHeapInternal (blockSize maxBlocks : ℤ) (is64 : Bool) (p : Process σ) :
    Exec (ShortLivedHeap × Process σ) :=
  match safeMalloc A p.storage (sizeofShortLivedHeap b) with
  | (some heap, s) =>
    return (
      { address := heap
        activeBlock := none
        blockChain := []
        is64 := is64
        bytesRemaining := 0
        maxBlocks := toInt32 maxBlocks
        blockCount := 0
        blockSize := toInt32 blockSize },
      { p with storage := s })
  | (none, _) => throw .undefinedBehaviour

/-- Fullword alignment. -/
def rounded (size : ℤ) : ℤ :=
  if size % 8 ≠ 0 then toInt32 (size + (8 - size % 8)) else size

namespace ShortLivedHeap

def remainingHeapBytes (slh : ShortLivedHeap) : ℤ :=
  toInt32 (slh.blockSize * toInt32 (slh.maxBlocks - slh.blockCount))

def newBlock (slh : ShortLivedHeap) (size : ℤ) (p : Process σ) : Option ℤ × Process σ :=
  match if slh.is64 then safeMalloc64 A b p.storage (toInt32 (size + 4))
    else safeMalloc31 A p.storage (toInt32 (size + 4)) with
  | (some block, s) =>
    (some (block + 4), { storage := s, sizeAt := Function.update p.sizeAt block size })
  | (none, s) => (none, { p with storage := s })

def oversize (slh : ShortLivedHeap) (size : ℤ) (p : Process σ) :
    Exec (Option ℤ × ShortLivedHeap × Process σ) :=
  match newBlock A b slh size p with
  | (none, p) => return (none, slh, p)
  | (some bigBlock, p) =>
    match slh.blockChain with
    | head :: blockTail => do
      let (next, s) ← cons A b bigBlock blockTail p.storage
      return (some bigBlock,
        { slh with blockChain := head :: next, blockCount := toInt32 (slh.blockCount + 1) },
        { p with storage := s })
    | [] => do
      let (chain, s) ← cons A b bigBlock [] p.storage
      return (some bigBlock,
        { slh with
          blockChain := chain
          activeBlock := some bigBlock
          bytesRemaining := 0
          blockCount := toInt32 (slh.blockCount + 1) },
        { p with storage := s })

def extend (slh : ShortLivedHeap) (p : Process σ) :
    Exec (Option ℤ × ShortLivedHeap × Process σ) :=
  match newBlock A b slh slh.blockSize p with
  | (none, p) => return (none, slh, p)
  | (some data, p) => do
    let (chain, s) ← cons A b data slh.blockChain p.storage
    return (some data,
      { slh with
        activeBlock := some data
        blockChain := chain
        bytesRemaining := slh.blockSize
        blockCount := toInt32 (slh.blockCount + 1) },
      { p with storage := s })

def cut (slh : ShortLivedHeap) (data size : ℤ) : ShortLivedHeap :=
  { slh with
    bytesRemaining := toInt32 (slh.bytesRemaining - size)
    activeBlock := some (data + size) }

/-- The active block, if it has enough left. -/
def usable (slh : ShortLivedHeap) (size : ℤ) : Option ℤ :=
  if slh.bytesRemaining < size then none else slh.activeBlock

end ShortLivedHeap

/-- A request above what the heap has left is stored through a null pointer. -/
def SLHAlloc (slh : ShortLivedHeap) (size : ℤ) (p : Process σ) :
    Exec (Option ℤ × ShortLivedHeap × Process σ) :=
  let size := rounded size
  if size > slh.remainingHeapBytes then throw .undefinedBehaviour
  else if size > slh.blockSize then slh.oversize A b size p
  else
    match slh.usable size with
    | some data => return (some data, slh.cut data size, p)
    | none => do
      let (data, slh, p) ← slh.extend A b p
      match data with
      | some data => return (some data, slh.cut data size, p)
      | none => return (none, slh, p)

def ShortLivedHeap.freeBlock (slh : ShortLivedHeap) (s : σ) (data size : ℤ) : Exec σ :=
  if slh.is64 then safeFree64 A b s data else safeFree31 A b s data (toInt32 (size + 4))

def freeChain (slh : ShortLivedHeap) (sizeAt : ℤ → ℤ) : List ListElt → σ → Exec σ
  | [], s => return s
  | elt :: chain, s => do
    let data := elt.data - 4
    let s ← slh.freeBlock A b s data (sizeAt data)
    let s ← safeFree A b s elt.address (sizeofListElt b)
    freeChain slh sizeAt chain s

def SLHFree (slh : ShortLivedHeap) (p : Process σ) : Exec (Process σ) := do
  let s ← freeChain A b slh p.sizeAt slh.blockChain p.storage
  let s ← safeFree A b s slh.address (sizeofShortLivedHeap b)
  return { p with storage := s }

end

end Heap
end ZoweCommon
