import Mathlib.Data.List.TakeWhile

/-! Null-terminated strings. -/
namespace ZoweCommon

abbrev Byte := BitVec 8

def NoNul (text : List Byte) : Prop := ∀ b ∈ text, b ≠ 0

/-- Only the bytes of a text are tried, and not every byte. -/
instance (p : Byte → Prop) [DecidablePred p] (text : List Byte) : Decidable (∀ b ∈ text, p b) :=
  List.decidableBAll p text

instance : DecidablePred NoNul := fun text => inferInstanceAs (Decidable (∀ b ∈ text, b ≠ 0))

namespace NoNul

variable {a b : List Byte}

theorem nil : NoNul [] := List.forall_mem_nil _

theorem cons {c : Byte} (hc : c ≠ 0) (h : NoNul a) : NoNul (c :: a) :=
  List.forall_mem_cons.mpr ⟨hc, h⟩

theorem append (ha : NoNul a) (hb : NoNul b) : NoNul (a ++ b) :=
  fun c hc => (List.mem_append.mp hc).elim (ha c) (hb c)

theorem take (h : NoNul a) (n : ℕ) : NoNul (a.take n) := fun c hc => h c (List.mem_of_mem_take hc)

theorem drop (h : NoNul a) (n : ℕ) : NoNul (a.drop n) := fun c hc => h c (List.mem_of_mem_drop hc)

end NoNul

/-- The bytes before the terminator. -/
structure CString where
  bytes : List Byte
  noNul : NoNul bytes
  deriving DecidableEq

namespace CString

@[ext] theorem ext {s t : CString} (h : s.bytes = t.bytes) : s = t := by
  cases s
  cases t
  congr

/-- What a `char *` to a buffer reads: the bytes up to the first terminator. -/
def ofBytes (buffer : List Byte) : CString where
  bytes := buffer.takeWhile (· ≠ 0)
  noNul b hb := by simpa using List.mem_takeWhile_imp hb

@[simp] theorem ofBytes_bytes (s : CString) : ofBytes s.bytes = s := by
  ext1
  exact List.takeWhile_eq_self_iff.mpr fun b hb => by simpa using s.noNul b hb

theorem ofBytes_of_noNul {buffer : List Byte} (h : NoNul buffer) :
    (ofBytes buffer).bytes = buffer :=
  List.takeWhile_eq_self_iff.mpr fun b hb => by simpa using h b hb

theorem ofBytes_terminated (text rest : List Byte) : ofBytes (text ++ 0 :: rest) = ofBytes text := by
  ext1
  induction text with
  | nil => rfl
  | cons c text ih =>
    unfold ofBytes at ih ⊢
    dsimp only at ih ⊢
    rw [List.cons_append, List.takeWhile_cons, List.takeWhile_cons, ih]

def strlen (s : CString) : ℕ := s.bytes.length

/-- The bytes of a string literal of the source. -/
def ascii (s : String) : List Byte := s.toList.map fun c => BitVec.ofNat 8 c.toNat

end CString
end ZoweCommon
