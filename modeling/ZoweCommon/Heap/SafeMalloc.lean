import ZoweCommon.Basic.Exec
import ZoweCommon.Basic.MachineInt
import ZoweCommon.Lib.Allocation

/-! Storage of the system, as each way to compile the code gets and frees it. -/
namespace ZoweCommon
namespace Heap

open Allocation

/-- How the code is compiled: with Metal C or with a C library, and whether pointers have 64
bits. -/
structure Build where
  mettle : Bool
  lp64 : Bool

namespace Build

def sizeofPointer (b : Build) : ℕ := if b.lp64 then 8 else 4

/-- Metal C gets the storage above the bar in megabytes. -/
def size64 (b : Build) (size : ℤ) : ℤ :=
  if b.mettle then
    1048576 * (if size % 1048576 = 0 then size / 1048576 else size / 1048576 + 1)
  else size

theorem le_size64 (b : Build) (size : ℤ) : size ≤ b.size64 size := by
  unfold size64
  split_ifs <;> omega

end Build

section

variable {σ : Type} (A : Allocator σ) (b : Build)

/-- No storage is a null pointer. -/
def safeMalloc31 (s : σ) (size : ℤ) : Option ℤ × σ := A.acquire s size

def safeMalloc (s : σ) (size : ℤ) : Option ℤ × σ := A.acquire s size

def safeMalloc64 (s : σ) (size : ℤ) : Option ℤ × σ :=
  if b.lp64 then A.acquire s (b.size64 size) else (none, s)

/-- Metal C frees storage by its address and length, the library by its address. -/
def safeFree31 (s : σ) (data size : ℤ) : Exec σ :=
  if ∃ e ∈ A.given s, e.start = data ∧ (b.mettle → e.size = size) then return A.release s data
  else throw .undefinedBehaviour

def safeFree (s : σ) (data size : ℤ) : Exec σ := safeFree31 A b s data size

/-- Without Metal C, nothing is done. -/
def safeFree64 (s : σ) (data : ℤ) : Exec σ :=
  if b.mettle ∧ b.lp64 then
    if ∃ e ∈ A.given s, e.start = data then return A.release s data
    else throw .undefinedBehaviour
  else return s

end

variable {σ : Type} {A : Allocator σ} {b : Build} {s : σ} {e : Extent} {rest : List Extent}

theorem safeFree31_of_perm (h : (A.given s).Perm (e :: rest)) :
    ∃ s', safeFree31 A b s e.start e.size = .ok s' ∧ (A.given s').Perm rest := by
  refine ⟨A.release s e.start, ?_, Allocator.given_release_of_perm h.symm⟩
  unfold safeFree31
  exact if_pos ⟨e, h.mem_iff.mpr List.mem_cons_self, rfl, fun _ => rfl⟩

theorem safeFree64_of_perm (h : (A.given s).Perm (e :: rest)) (hb : b.mettle ∧ b.lp64) :
    ∃ s', safeFree64 A b s e.start = .ok s' ∧ (A.given s').Perm rest := by
  refine ⟨A.release s e.start, ?_, Allocator.given_release_of_perm h.symm⟩
  unfold safeFree64
  rw [if_pos hb]
  exact if_pos ⟨e, h.mem_iff.mpr List.mem_cons_self, rfl⟩

end Heap
end ZoweCommon
