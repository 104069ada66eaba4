import Mathlib.Data.List.Nodup
import Mathlib.Logic.Function.Basic

/-! Singly linked chains: the addresses a `next` field threads together, and what
assignments to that field do to them. An absent address stands for the null pointer. -/
namespace Linked

variable {α : Type*} {next next' : α → Option α} {p : Option α} {as bs : List α}

/-- Following `next` from `p` visits exactly the addresses `as`, in order, and then ends. -/
def Chain (next : α → Option α) : Option α → List α → Prop
  | p, [] => p = none
  | p, a :: as => p = some a ∧ Chain next (next a) as

@[simp] theorem chain_nil : Chain next p [] ↔ p = none := Iff.rfl

@[simp] theorem chain_cons {a : α} : Chain next p (a :: as) ↔ p = some a ∧ Chain next (next a) as :=
  Iff.rfl

theorem chain_none_iff : Chain next none as ↔ as = [] := by
  cases as <;> simp

theorem Chain.head?_eq (h : Chain next p as) : as.head? = p := by
  cases as with
  | nil => exact (chain_nil.mp h).symm
  | cons a as => exact (chain_cons.mp h).1.symm

theorem Chain.unique (ha : Chain next p as) (hb : Chain next p bs) : as = bs := by
  induction as generalizing p bs with
  | nil =>
    cases chain_nil.mp ha
    exact (chain_none_iff.mp hb).symm
  | cons a as ih =>
    obtain ⟨rfl, ha⟩ := ha
    cases bs with
    | nil => simp at hb
    | cons b bs =>
      obtain ⟨heq, hb⟩ := hb
      cases heq
      rw [ih ha hb]

/-- Following `next` from `p`, the first address that satisfies `P` is `a`. -/
inductive First (next : α → Option α) (P : α → Prop) : Option α → α → Prop
  | here {a : α} (h : P a) : First next P (some a) a
  | there {a b : α} (hb : ¬P b) (h : First next P (next b) a) : First next P (some b) a

theorem Chain.mem_of_first {P : α → Prop} {a : α} (h : Chain next p as) (ha : First next P p a) :
    a ∈ as ∧ P a := by
  induction ha generalizing as with
  | here hP =>
    cases as with
    | nil => cases chain_nil.mp h
    | cons b as =>
      cases h.1
      exact ⟨List.mem_cons_self, hP⟩
  | there _ _ ih =>
    cases as with
    | nil => cases chain_nil.mp h
    | cons b as =>
      cases h.1
      obtain ⟨hmem, hP⟩ := ih h.2
      exact ⟨List.mem_cons_of_mem _ hmem, hP⟩

/-- Only the `next` fields of the visited addresses matter. -/
theorem Chain.congr (hn : ∀ a ∈ as, next' a = next a) (h : Chain next p as) :
    Chain next' p as := by
  induction as generalizing p with
  | nil => exact h
  | cons a as ih =>
    refine ⟨h.1, ?_⟩
    rw [hn a (by simp)]
    exact ih (fun b hb => hn b (by simp [hb])) h.2

theorem Chain.drop_append (h : Chain next p (as ++ bs)) :
    ∃ q, Chain next q bs ∧ (as = [] → q = p) := by
  induction as generalizing p with
  | nil => exact ⟨p, h, fun _ => rfl⟩
  | cons a as ih =>
    obtain ⟨q, hq, -⟩ := ih h.2
    exact ⟨q, hq, by simp⟩

theorem Chain.next_of_append {a : α} (h : Chain next p (as ++ a :: bs)) :
    Chain next (next a) bs := by
  obtain ⟨q, hq, -⟩ := h.drop_append
  exact hq.2

/-- The address after `a` is the head of what follows it. -/
theorem Chain.next_eq_head? {a : α} (h : Chain next p (as ++ a :: bs)) : next a = bs.head? :=
  h.next_of_append.head?_eq.symm

/-- A chain that ends cannot come back to an address it has visited. -/
theorem Chain.nodup (h : Chain next p as) : as.Nodup := by
  induction as generalizing p with
  | nil => exact List.nodup_nil
  | cons a as ih =>
    refine List.nodup_cons.mpr ⟨fun ha => ?_, ih h.2⟩
    obtain ⟨pre, post, rfl⟩ := List.append_of_mem ha
    have hlong : Chain next (some a) (a :: (pre ++ a :: post)) := ⟨rfl, h.2⟩
    have hshort : Chain next (some a) (a :: post) := ⟨rfl, h.2.next_of_append⟩
    have hlen := congrArg List.length (hlong.unique hshort)
    simp at hlen
    omega

theorem Chain.mem_ne_of_append {a b : α} (as : List α) (h : Chain next p (as ++ a :: bs))
    (hb : b ∈ as ++ bs) : b ≠ a := by
  have hnd := h.nodup
  rw [List.nodup_middle] at hnd
  rintro rfl
  exact (List.nodup_cons.mp hnd).1 hb

variable [DecidableEq α]

/-- Assigning the field of an address that is not visited changes nothing. -/
theorem Chain.update_of_notMem {a : α} {q : Option α} (ha : a ∉ as) (h : Chain next p as) :
    Chain (Function.update next a q) p as := by
  refine h.congr fun b hb => ?_
  have hba : b ≠ a := fun h => ha (h ▸ hb)
  rw [Function.update_of_ne hba]

/-- A new address placed in front of a chain. -/
theorem Chain.push {a : α} (ha : a ∉ as) (h : Chain next p as) :
    Chain (Function.update next a p) (some a) (a :: as) := by
  refine ⟨rfl, ?_⟩
  rw [Function.update_self]
  exact h.update_of_notMem ha

/-- Redirecting the predecessor of an address around it takes it off the chain. -/
theorem Chain.unlink {a b : α} (h : Chain next p (as ++ a :: b :: bs)) :
    Chain (Function.update next a (next b)) p (as ++ a :: bs) := by
  induction as generalizing p with
  | nil =>
    have hab : a ∉ bs := fun hm => h.mem_ne_of_append [] (List.mem_cons_of_mem b hm) rfl
    refine ⟨h.1, ?_⟩
    rw [Function.update_self]
    exact h.2.2.update_of_notMem hab
  | cons c cs ih =>
    have hc : c ≠ a := h.mem_ne_of_append (c :: cs) (by simp)
    refine ⟨h.1, ?_⟩
    rw [Function.update_of_ne hc]
    exact ih h.2

/-- Giving the last address of a chain a successor that ends there extends the chain. -/
theorem Chain.snoc {a b : α} (h : Chain next p (as ++ [a])) (hb : b ∉ as ++ [a])
    (hn : next b = none) : Chain (Function.update next a (some b)) p (as ++ [a, b]) := by
  induction as generalizing p with
  | nil =>
    have hba : b ≠ a := by simpa using hb
    refine ⟨h.1, ?_⟩
    rw [Function.update_self]
    refine ⟨rfl, ?_⟩
    rw [Function.update_of_ne hba, hn]
    rfl
  | cons c cs ih =>
    have hc : c ≠ a := h.mem_ne_of_append (c :: cs) (by simp)
    refine ⟨h.1, ?_⟩
    rw [Function.update_of_ne hc]
    exact ih h.2 (fun hm => hb (by simp_all))

/-- Ending a chain at one of its addresses drops what followed it. -/
theorem Chain.cut {a : α} (h : Chain next p (as ++ a :: bs)) :
    Chain (Function.update next a none) p (as ++ [a]) := by
  induction as generalizing p with
  | nil =>
    refine ⟨h.1, ?_⟩
    rw [Function.update_self]
    rfl
  | cons c cs ih =>
    have hc : c ≠ a := h.mem_ne_of_append (c :: cs) (by simp)
    refine ⟨h.1, ?_⟩
    rw [Function.update_of_ne hc]
    exact ih h.2

end Linked
