import Mathlib.Data.List.Pairwise
import ZoweCommon.Collections.Hashtable

/-! What a well-formed hashtable looks like in memory, and what unlinking an entry,
writing one and walking a chain do to it. -/
namespace ZoweCommon
namespace Hashtable

open Linked

variable {M K V : Type} [DecidableEq K] [Pointer K] {mem : M} {ht ht' : Hashtable M K V}
  {chains : ℕ → List ℕ} {free : List ℕ}

/-- The key and value of the entry at an address; a freed block holds none. -/
def entryAt (ht : Hashtable M K V) (a : ℕ) : Option (K × Option V) :=
  match (ht.heap a).key with
  | .key k => some (k, (ht.heap a).value)
  | _ => none

/-- The free-list link in the first word of a block. -/
def link (ht : Hashtable M K V) (a : ℕ) : Option ℕ :=
  match (ht.heap a).key with
  | .link q => q
  | _ => none

/-- The entries at two addresses do not have equal keys. -/
def Differ (mem : M) (ht : Hashtable M K V) (a b : ℕ) : Prop :=
  ∀ e f, ht.entryAt a = some e → ht.entryAt b = some f → ht.compare mem e.1 f.1 = false

/-- Chains of live entries, each in the slot its key hashes to and no two in a slot with
equal keys, together with the free list account for every block the manager has cut. -/
structure Rep (mem : M) (ht : Hashtable M K V) (chains : ℕ → List ℕ) (free : List ℕ) : Prop where
  wf : ht.mgr.Wf
  size_pos : 0 < ht.backboneSize
  chain : ∀ i, Chain ht.next (ht.backbone i) (chains i)
  keyed : ∀ i, ∀ a ∈ chains i, ∃ e, ht.entryAt a = some e ∧ ht.place mem e.1 = i
  distinct : ∀ i, (chains i).Pairwise (Differ mem ht)
  freeChain : Chain ht.link ht.mgr.freeList free
  freed : ∀ a ∈ free, ∃ q, (ht.heap a).key = .link q
  blocks : ∀ a, a ∈ ht.mgr.blocks ↔ a ∈ free ∨ ∃ i, a ∈ chains i

/-- What of this does not depend on the keys: chains of live entries, no entry on two of them. -/
structure Chained (ht : Hashtable M K V) (chains : ℕ → List ℕ) (free : List ℕ) : Prop where
  wf : ht.mgr.Wf
  chain : ∀ i, Chain ht.next (ht.backbone i) (chains i)
  live : ∀ i, ∀ a ∈ chains i, ∃ e, ht.entryAt a = some e
  apart : ∀ i j a, a ∈ chains i → a ∈ chains j → i = j
  slots : ∀ i, ∀ a ∈ chains i, i < ht.backboneSize
  freeChain : Chain ht.link ht.mgr.freeList free
  freed : ∀ a ∈ free, ∃ q, (ht.heap a).key = .link q
  blocks : ∀ a, a ∈ ht.mgr.blocks ↔ a ∈ free ∨ ∃ i, a ∈ chains i

def contents (ht : Hashtable M K V) (chains : ℕ → List ℕ) : Set (K × Option V) :=
  {e | ∃ i, ∃ a ∈ chains i, ht.entryAt a = some e}

/-- The comparator is an equivalence and equal keys have the same hash code. -/
structure Coherent (mem : M) (ht : Hashtable M K V) : Prop where
  equivalence : Equivalence fun k l => ht.compare mem k l = true
  hashcode : ∀ k l, ht.compare mem k l = true → ht.hashcode mem k = ht.hashcode mem l

/-- Everything of a table that its operations leave alone. -/
structure SameSetup (ht ht' : Hashtable M K V) : Prop where
  backboneSize : ht'.backboneSize = ht.backboneSize
  hashFunction : ht'.hashFunction = ht.hashFunction
  comparator : ht'.comparator = ht.comparator
  keepEntry : ht'.keepEntry = ht.keepEntry
  entryExpired : ht'.entryExpired = ht.entryExpired
  removeEntry : ht'.removeEntry = ht.removeEntry

omit [DecidableEq K] [Pointer K] in
theorem SameSetup.refl (ht : Hashtable M K V) : SameSetup ht ht := ⟨rfl, rfl, rfl, rfl, rfl, rfl⟩

omit [DecidableEq K] [Pointer K] in
theorem SameSetup.trans {ht'' : Hashtable M K V} (h : SameSetup ht ht') (h' : SameSetup ht' ht'') :
    SameSetup ht ht'' :=
  ⟨h'.1.trans h.1, h'.2.trans h.2, h'.3.trans h.3, h'.4.trans h.4, h'.5.trans h.5, h'.6.trans h.6⟩

omit [Pointer K] in
theorem SameSetup.compare (h : SameSetup ht ht') : ht'.compare mem = ht.compare mem := by
  funext k l
  simp only [Hashtable.compare, h.comparator]

omit [DecidableEq K] in
theorem SameSetup.hashcode (h : SameSetup ht ht') : ht'.hashcode mem = ht.hashcode mem := by
  funext k
  simp only [Hashtable.hashcode, h.hashFunction]

omit [DecidableEq K] in
theorem SameSetup.place (h : SameSetup ht ht') : ht'.place mem = ht.place mem := by
  funext k
  simp only [Hashtable.place, h.hashcode, h.backboneSize]

theorem Coherent.place_eq {k l : K} (hk : Coherent mem ht) (h : ht.compare mem k l = true) :
    ht.place mem k = ht.place mem l := by
  simp only [place, hk.hashcode k l h]

/-- Two keys equal to the same key are equal. -/
theorem Coherent.compare_congr {k l : K} (hk : Coherent mem ht) (h : ht.compare mem k l = true)
    (x : K) : ht.compare mem x k = ht.compare mem x l := by
  rw [Bool.eq_iff_iff]
  exact ⟨fun hx => hk.equivalence.trans hx h,
    fun hx => hk.equivalence.trans hx (hk.equivalence.symm h)⟩

theorem Coherent.compare_comm (hk : Coherent mem ht) (k l : K) :
    ht.compare mem k l = ht.compare mem l k := by
  rw [Bool.eq_iff_iff]
  exact ⟨hk.equivalence.symm, hk.equivalence.symm⟩

theorem Coherent.differ_symm (hk : Coherent mem ht) : Std.Symm (Differ mem ht) where
  symm a b hab e f he hf := by
    rw [hk.compare_comm]
    exact hab f e hf he

omit [DecidableEq K] [Pointer K] in
theorem entryAt_eq_some {a : ℕ} {e : K × Option V} :
    ht.entryAt a = some e ↔ (ht.heap a).key = .key e.1 ∧ (ht.heap a).value = e.2 := by
  unfold entryAt
  split
  · next k hk =>
    rw [hk, Option.some_inj, Word.key.injEq, Prod.ext_iff]
  · next hk =>
    constructor
    · intro h
      cases h
    · rintro ⟨h, -⟩
      exact absurd h (hk e.1)

section

variable (h : Chained ht chains free)

include h

omit [DecidableEq K] [Pointer K] in
theorem Chained.notMem_free {i a : ℕ} (ha : a ∈ chains i) : a ∉ free := by
  intro hfree
  obtain ⟨e, he⟩ := h.live i a ha
  obtain ⟨q, hq⟩ := h.freed a hfree
  rw [(entryAt_eq_some.mp he).1] at hq
  cases hq

omit [DecidableEq K] [Pointer K] in
/-- A walk along a chain is never longer than the fuel it is given. -/
theorem Chained.length_le (i : ℕ) : (chains i).length ≤ ht.mgr.issued :=
  FixedBlockMgr.length_le_issued (h.chain i).nodup fun a ha => (h.blocks a).mpr (.inr ⟨i, ha⟩)

end

section

variable (h : Rep mem ht chains free)

include h

theorem Rep.slot_unique {i j a : ℕ} (hi : a ∈ chains i) (hj : a ∈ chains j) : i = j := by
  obtain ⟨e, he, rfl⟩ := h.keyed i a hi
  obtain ⟨f, hf, rfl⟩ := h.keyed j a hj
  rw [he, Option.some_inj] at hf
  rw [hf]

theorem Rep.mem_slot_lt {i a : ℕ} (ha : a ∈ chains i) : i < ht.backboneSize := by
  obtain ⟨e, -, rfl⟩ := h.keyed i a ha
  exact Nat.mod_lt _ h.size_pos

theorem Rep.chained : Chained ht chains free where
  wf := h.wf
  chain := h.chain
  live i a ha := (h.keyed i a ha).imp fun _ => And.left
  apart _ _ _ := h.slot_unique
  slots _ _ := h.mem_slot_lt
  freeChain := h.freeChain
  freed := h.freed
  blocks := h.blocks

/-- No two entries of the table have equal keys. -/
theorem Rep.eq_of_compare (hk : Coherent mem ht) {i j a b : ℕ} {e f : K × Option V}
    (ha : a ∈ chains i) (hb : b ∈ chains j) (he : ht.entryAt a = some e)
    (hf : ht.entryAt b = some f) (hef : ht.compare mem e.1 f.1 = true) : a = b := by
  obtain ⟨e', he', hi⟩ := h.keyed i a ha
  obtain ⟨f', hf', hj⟩ := h.keyed j b hb
  rw [he, Option.some_inj] at he'
  rw [hf, Option.some_inj] at hf'
  subst he' hf'
  have hij : i = j := by rw [← hi, ← hj, hk.place_eq hef]
  subst hij
  by_contra hne
  have := hk.differ_symm
  rw [(h.distinct i).forall ha hb hne e f he hf] at hef
  cases hef

end

/-! Walks -/

omit [Pointer K] in
theorem find_spec (pre : List ℕ) {key : K} {p : Option ℕ} {as : List ℕ} {fuel : ℕ}
    (hc : Chain ht.next p as) (hk : ∀ a ∈ as, ∃ e, ht.entryAt a = some e)
    (hf : as.length ≤ fuel) :
    (∃ as₁ a as₂ e, as = as₁ ++ a :: as₂ ∧ ht.entryAt a = some e ∧
      ht.compare mem e.1 key = true ∧
      ht.find mem key fuel pre.getLast? p = .ok ((pre ++ as₁).getLast?, some a)) ∨
    ((∀ a ∈ as, ∀ e, ht.entryAt a = some e → ht.compare mem e.1 key = false) ∧
      ∃ q, ht.find mem key fuel pre.getLast? p = .ok (q, none)) := by
  induction as generalizing p pre fuel with
  | nil =>
    cases chain_nil.mp hc
    exact .inr ⟨by simp, pre.getLast?, by cases fuel <;> simp [find]⟩
  | cons a as ih =>
    obtain ⟨rfl, hc⟩ := hc
    obtain ⟨fuel, rfl⟩ : ∃ n, fuel = n + 1 :=
      Nat.exists_eq_succ_of_ne_zero fun h0 => by simp [h0] at hf
    obtain ⟨e, he⟩ := hk a (by simp)
    have hkey := (entryAt_eq_some.mp he).1
    cases hcmp : ht.compare mem e.1 key with
    | true =>
      refine .inl ⟨[], a, as, e, rfl, he, hcmp, ?_⟩
      simp [find, hkey, hcmp]
    | false =>
      have hstep : ht.find mem key (fuel + 1) pre.getLast? (some a) =
          ht.find mem key fuel (pre ++ [a]).getLast? (ht.next a) := by
        simp [find, hkey, hcmp]
      rw [hstep]
      rcases ih (pre ++ [a]) hc (fun b hb => hk b (by simp [hb]))
        (by simpa using hf) with ⟨as₁, b, as₂, f, rfl, hf', hcmp', hfind⟩ | ⟨hnone, hfind⟩
      · refine .inl ⟨a :: as₁, b, as₂, f, rfl, hf', hcmp', ?_⟩
        rw [hfind, List.append_assoc, List.singleton_append]
      · refine .inr ⟨?_, hfind⟩
        intro b hb f hf'
        rcases List.mem_cons.mp hb with rfl | hb
        · rw [he, Option.some_inj] at hf'
          rw [← hf', hcmp]
        · exact hnone b hb f hf'

omit [Pointer K] in
theorem Chained.walkFrom_spec (h : Chained ht chains free) (mem : M) (i : ℕ) (key : K) :
    (∃ as₁ a as₂ e, chains i = as₁ ++ a :: as₂ ∧ ht.entryAt a = some e ∧
      ht.compare mem e.1 key = true ∧ ht.walkFrom mem i key = .ok (as₁.getLast?, some a)) ∨
    ((∀ a ∈ chains i, ∀ e, ht.entryAt a = some e → ht.compare mem e.1 key = false) ∧
      ∃ q, ht.walkFrom mem i key = .ok (q, none)) :=
  find_spec [] (h.chain i) (h.live i) (h.length_le i)

/-! Taking an entry off its chain -/

/-- What `htDequeue` and `htPrune` do to an entry, but for the calls they log. -/
def detach (ht : Hashtable M K V) (place : ℕ) (prev : Option ℕ) (entry : ℕ) : Hashtable M K V :=
  (ht.unlink place prev entry).release entry

/-- The call of the key reclaimer, if there is one. -/
def keyLog (ht : Hashtable M K V) (key : Word K) : List (Reclaim K V) :=
  if ht.keyReclaimer then [.key key] else []

def valueLog (ht : Hashtable M K V) (value : Option V) : List (Reclaim K V) :=
  if ht.valueReclaimer then [.value value] else []

def destroyLog (destroyer : Bool) (value : Option V) : List (Reclaim K V) :=
  if destroyer then [.destroy value] else []

/-- Between two states of a table its reclaimers were called as the log says. -/
structure Logged (ht ht' : Hashtable M K V) (log : List (Reclaim K V)) : Prop where
  keyReclaimer : ht'.keyReclaimer = ht.keyReclaimer
  valueReclaimer : ht'.valueReclaimer = ht.valueReclaimer
  reclaimed : ht'.reclaimed = ht.reclaimed ++ log

omit [DecidableEq K] [Pointer K] in
theorem Logged.refl (ht : Hashtable M K V) : Logged ht ht [] :=
  ⟨rfl, rfl, (List.append_nil _).symm⟩

omit [DecidableEq K] [Pointer K] in
theorem Logged.trans {ht'' : Hashtable M K V} {log log' : List (Reclaim K V)}
    (h : Logged ht ht' log) (h' : Logged ht' ht'' log') : Logged ht ht'' (log ++ log') := by
  refine ⟨h'.keyReclaimer.trans h.keyReclaimer, h'.valueReclaimer.trans h.valueReclaimer, ?_⟩
  rw [h'.reclaimed, h.reclaimed, List.append_assoc]

omit [DecidableEq K] [Pointer K] in
theorem Logged.keyLog {log : List (Reclaim K V)} (h : Logged ht ht' log) :
    ht'.keyLog = ht.keyLog := by
  funext key
  unfold Hashtable.keyLog
  rw [h.keyReclaimer]

omit [DecidableEq K] [Pointer K] in
theorem reclaimKey_eq (entry : ℕ) : ht.reclaimKey entry =
    { ht with reclaimed := ht.reclaimed ++ ht.keyLog (ht.heap entry).key } := by
  unfold reclaimKey keyLog
  split_ifs
  · rfl
  · rw [List.append_nil]

omit [DecidableEq K] [Pointer K] in
theorem reclaimValue_eq (entry : ℕ) : ht.reclaimValue entry =
    { ht with reclaimed := ht.reclaimed ++ ht.valueLog (ht.heap entry).value } := by
  unfold reclaimValue valueLog
  split_ifs
  · rfl
  · rw [List.append_nil]

omit [DecidableEq K] [Pointer K] in
/-- The predecessor's link is redirected; its key and value are not touched. -/
theorem heap_unlink (ht : Hashtable M K V) (place : ℕ) (prev : Option ℕ) (entry b : ℕ) :
    ((ht.unlink place prev entry).heap b).key = (ht.heap b).key ∧
      ((ht.unlink place prev entry).heap b).value = (ht.heap b).value := by
  cases prev with
  | none => exact ⟨rfl, rfl⟩
  | some p =>
    unfold unlink
    simp only [Function.update_apply]
    split_ifs with hb
    · rw [hb]
      exact ⟨rfl, rfl⟩
    · exact ⟨rfl, rfl⟩

omit [DecidableEq K] [Pointer K] in
theorem logged_unlink (ht : Hashtable M K V) (place : ℕ) (prev : Option ℕ) (entry : ℕ) :
    Logged ht (ht.unlink place prev entry) [] := by
  cases prev <;> exact ⟨rfl, rfl, (List.append_nil _).symm⟩

omit [DecidableEq K] [Pointer K] in
theorem htDequeue_eq (ht : Hashtable M K V) (place : ℕ) (prev : Option ℕ) (entry : ℕ)
    (valueReclaim : Bool) :
    htDequeue ht place prev entry valueReclaim =
      { ht.detach place prev entry with
        reclaimed := ht.reclaimed ++ (ht.keyLog (ht.heap entry).key ++
          if valueReclaim then ht.valueLog (ht.heap entry).value else []) } := by
  obtain ⟨hkey, hvalue⟩ := heap_unlink ht place prev entry entry
  have hlog := logged_unlink ht place prev entry
  have hreclaimed : (ht.unlink place prev entry).reclaimed = ht.reclaimed := by
    rw [hlog.reclaimed, List.append_nil]
  have hvalueLog : (ht.unlink place prev entry).valueLog = ht.valueLog := by
    funext value
    unfold valueLog
    rw [hlog.valueReclaimer]
  unfold htDequeue
  simp only [reclaimKey_eq, reclaimValue_eq, hlog.keyLog, hkey, hreclaimed]
  cases valueReclaim with
  | true =>
    rw [if_pos rfl, if_pos rfl, ← List.append_assoc, ← hvalueLog, ← hvalue]
    rfl
  | false =>
    rw [if_neg Bool.false_ne_true, if_neg Bool.false_ne_true, List.append_nil]
    rfl

omit [DecidableEq K] [Pointer K] in
theorem pruneEntry_eq (ht : Hashtable M K V) (place : ℕ) (prev : Option ℕ) (entry : ℕ)
    (destroyer : Bool) :
    ht.pruneEntry place prev entry destroyer =
      { ht.detach place prev entry with
        reclaimed := ht.reclaimed ++
          (ht.keyLog (ht.heap entry).key ++ destroyLog destroyer (ht.heap entry).value) } := by
  have hkey := (heap_unlink ht place prev entry entry).1
  have hlog := logged_unlink ht place prev entry
  have hreclaimed : (ht.unlink place prev entry).reclaimed = ht.reclaimed := by
    rw [hlog.reclaimed, List.append_nil]
  unfold pruneEntry destroyLog
  simp only [reclaimKey_eq, hlog.keyLog, hkey, hreclaimed]
  cases destroyer with
  | true =>
    rw [if_pos rfl, if_pos rfl, ← List.append_assoc]
    rfl
  | false =>
    rw [if_neg Bool.false_ne_true, if_neg Bool.false_ne_true, List.append_nil]
    rfl

omit [DecidableEq K] [Pointer K] in
theorem logged_detach (ht : Hashtable M K V) (place : ℕ) (prev : Option ℕ) (entry : ℕ)
    (log : List (Reclaim K V)) :
    Logged ht { ht.detach place prev entry with reclaimed := ht.reclaimed ++ log } log := by
  cases prev <;> exact ⟨rfl, rfl, rfl⟩

omit [DecidableEq K] [Pointer K] in
theorem sameSetup_detach (ht : Hashtable M K V) (place : ℕ) (prev : Option ℕ) (entry : ℕ)
    (log : List (Reclaim K V)) :
    SameSetup ht { ht.detach place prev entry with reclaimed := log } := by
  cases prev <;> exact ⟨rfl, rfl, rfl, rfl, rfl, rfl⟩

omit [DecidableEq K] [Pointer K] in
theorem heap_detach (place : ℕ) (prev : Option ℕ) (entry b : ℕ) :
    (ht.detach place prev entry).heap b =
      if b = entry then
        { (if prev = some entry then { ht.heap entry with next := ht.next entry }
            else ht.heap entry) with key := .link ht.mgr.freeList, value := none }
      else if prev = some b then { ht.heap b with next := ht.next entry }
      else ht.heap b := by
  cases prev with
  | none =>
    by_cases hb : b = entry
    · subst hb
      simp [detach, unlink, release, fbMgrFree]
    · simp [detach, unlink, release, fbMgrFree, hb]
  | some p =>
    by_cases hb : b = entry
    · subst hb
      by_cases hp : p = b
      · subst hp
        simp [detach, unlink, release, fbMgrFree]
      · simp [detach, unlink, release, fbMgrFree, hp, Ne.symm hp]
    · by_cases hp : p = b
      · subst hp
        simp [detach, unlink, release, fbMgrFree, hb]
      · simp [detach, unlink, release, fbMgrFree, hb, hp, Ne.symm hp]

omit [DecidableEq K] [Pointer K] in
theorem entryAt_detach_of_ne {place entry b : ℕ} {prev : Option ℕ} (hb : b ≠ entry) :
    (ht.detach place prev entry).entryAt b = ht.entryAt b := by
  simp only [entryAt, heap_detach, if_neg hb]
  split_ifs <;> rfl

omit [DecidableEq K] [Pointer K] in
theorem next_detach_none (place entry : ℕ) : (ht.detach place none entry).next = ht.next := by
  funext b
  by_cases hb : b = entry
  · simp [next, heap_detach, hb]
  · simp [next, heap_detach, hb]

omit [DecidableEq K] [Pointer K] in
theorem next_detach_some {place p entry : ℕ} (hp : p ≠ entry) :
    (ht.detach place (some p) entry).next = Function.update ht.next p (ht.next entry) := by
  funext b
  simp only [next, heap_detach, Option.some_inj, Function.update_apply]
  by_cases hb : b = entry
  · subst hb
    simp [hp, Ne.symm hp]
  · by_cases hbp : p = b
    · simp [hbp, hb]
    · simp [hb, hbp, Ne.symm hbp]

omit [DecidableEq K] [Pointer K] in
theorem mgr_detach (place : ℕ) (prev : Option ℕ) (entry : ℕ) :
    (ht.detach place prev entry).mgr = { ht.mgr with freeList := some entry } := by
  cases prev <;> rfl

omit [DecidableEq K] [Pointer K] in
/-- Redirecting the predecessor, or the backbone, takes an entry off its own chain and
leaves the others as they were. -/
theorem Chained.chain_detach (h : Chained ht chains free) {i a : ℕ} {pre post : List ℕ}
    (hc : chains i = pre ++ a :: post) (j : ℕ) :
    Chain (ht.detach i pre.getLast? a).next ((ht.detach i pre.getLast? a).backbone j)
      (Function.update chains i (pre ++ post) j) := by
  have hi := h.chain i
  rw [hc] at hi
  rcases List.eq_nil_or_concat' pre with rfl | ⟨pre, p, rfl⟩
  · rw [List.getLast?_nil, next_detach_none]
    change Chain ht.next (Function.update ht.backbone i (ht.next a) j) _
    by_cases hj : j = i
    · subst hj
      rw [Function.update_self, Function.update_self]
      exact hi.2
    · rw [Function.update_of_ne hj, Function.update_of_ne hj]
      exact h.chain j
  · have hpa : p ≠ a := hi.mem_ne_of_append _ (by simp)
    rw [List.getLast?_concat, next_detach_some hpa]
    change Chain _ (ht.backbone j) _
    by_cases hj : j = i
    · subst hj
      rw [Function.update_self, List.append_assoc, List.singleton_append]
      rw [List.append_assoc, List.singleton_append] at hi
      exact hi.unlink
    · rw [Function.update_of_ne hj]
      refine (h.chain j).update_of_notMem fun hp => hj ?_
      exact h.apart _ _ _ hp (by rw [hc]; simp)

omit [DecidableEq K] [Pointer K] in
theorem Chained.mem_detach (h : Chained ht chains free) {i a : ℕ} {pre post : List ℕ}
    (hc : chains i = pre ++ a :: post) {j b : ℕ} :
    b ∈ Function.update chains i (pre ++ post) j ↔ b ∈ chains j ∧ b ≠ a := by
  have hi := h.chain i
  rw [hc] at hi
  by_cases hj : j = i
  · subst hj
    rw [Function.update_self, hc]
    constructor
    · intro hb
      exact ⟨by simp at hb ⊢; tauto, hi.mem_ne_of_append _ hb⟩
    · rintro ⟨hb, hne⟩
      simp at hb ⊢
      tauto
  · rw [Function.update_of_ne hj]
    refine ⟨fun hb => ⟨hb, ?_⟩, And.left⟩
    rintro rfl
    exact hj (h.apart _ _ _ hb (by rw [hc]; simp))

omit [DecidableEq K] [Pointer K] in
/-- The entry leaves its chain and its block joins the free list. -/
theorem Chained.detach (h : Chained ht chains free) {i a : ℕ} {pre post : List ℕ}
    (hc : chains i = pre ++ a :: post) (log : List (Reclaim K V)) :
    Chained { ht.detach i pre.getLast? a with reclaimed := log }
      (Function.update chains i (pre ++ post)) (a :: free) := by
  have ha : a ∈ chains i := by
    rw [hc]
    simp
  have hsetup := sameSetup_detach ht i pre.getLast? a log
  have hkey : ((ht.detach i pre.getLast? a).heap a).key = .link ht.mgr.freeList := by
    simp [heap_detach]
  have hlink : Chain (ht.detach i pre.getLast? a).link ht.mgr.freeList free := by
    refine h.freeChain.congr fun b hb => ?_
    have hne : b ≠ a := fun hba => h.notMem_free ha (hba ▸ hb)
    simp only [link, heap_detach, if_neg hne]
    split_ifs <;> rfl
  refine ⟨?_, h.chain_detach hc, ?_, ?_, ?_, ?_, ?_, ?_⟩
  · change (ht.detach i pre.getLast? a).mgr.Wf
    rw [mgr_detach]
    exact h.wf.setFreeList (some a)
  · intro j b hb
    obtain ⟨hb, hne⟩ := (h.mem_detach hc).mp hb
    obtain ⟨e, he⟩ := h.live j b hb
    exact ⟨e, (entryAt_detach_of_ne hne).trans he⟩
  · intro j k b hj hk
    exact h.apart j k b ((h.mem_detach hc).mp hj).1 ((h.mem_detach hc).mp hk).1
  · intro j b hb
    rw [hsetup.backboneSize]
    exact h.slots j b ((h.mem_detach hc).mp hb).1
  · change Chain (ht.detach i pre.getLast? a).link (ht.detach i pre.getLast? a).mgr.freeList _
    rw [mgr_detach]
    refine ⟨rfl, ?_⟩
    simpa only [link, hkey] using hlink
  · intro b hb
    rcases List.mem_cons.mp hb with rfl | hb
    · exact ⟨_, hkey⟩
    · have hne : b ≠ a := fun hba => h.notMem_free ha (hba ▸ hb)
      obtain ⟨q, hq⟩ := h.freed b hb
      refine ⟨q, ?_⟩
      simp only [heap_detach, if_neg hne]
      split_ifs <;> exact hq
  · intro b
    change b ∈ (ht.detach i pre.getLast? a).mgr.blocks ↔ _
    rw [mgr_detach, FixedBlockMgr.blocks_setFreeList, h.blocks b, List.mem_cons]
    constructor
    · rintro (hb | ⟨j, hb⟩)
      · exact .inl (.inr hb)
      · by_cases hba : b = a
        · exact .inl (.inl hba)
        · exact .inr ⟨j, (h.mem_detach hc).mpr ⟨hb, hba⟩⟩
    · rintro ((rfl | hb) | ⟨j, hb⟩)
      · exact .inr ⟨i, ha⟩
      · exact .inl hb
      · exact .inr ⟨j, ((h.mem_detach hc).mp hb).1⟩

theorem Rep.detach (h : Rep mem ht chains free) {i a : ℕ} {pre post : List ℕ}
    (hc : chains i = pre ++ a :: post) (log : List (Reclaim K V)) :
    Rep mem { ht.detach i pre.getLast? a with reclaimed := log }
      (Function.update chains i (pre ++ post)) (a :: free) := by
  have hsetup := sameSetup_detach ht i pre.getLast? a log
  have hdetach := h.chained.detach hc log
  refine ⟨hdetach.wf, ?_, hdetach.chain, ?_, ?_, hdetach.freeChain, hdetach.freed, hdetach.blocks⟩
  · rw [hsetup.backboneSize]
    exact h.size_pos
  · intro j b hb
    obtain ⟨hb, hne⟩ := (h.chained.mem_detach hc).mp hb
    obtain ⟨e, he, hp⟩ := h.keyed j b hb
    refine ⟨e, (entryAt_detach_of_ne hne).trans he, ?_⟩
    rw [hsetup.place, hp]
  · intro j
    have hsub : (Function.update chains i (pre ++ post) j).Sublist (chains j) := by
      by_cases hj : j = i
      · subst hj
        rw [Function.update_self, hc]
        exact List.Sublist.append_left (List.sublist_cons_self a post) pre
      · rw [Function.update_of_ne hj]
    refine ((h.distinct j).sublist hsub).imp_of_mem fun {b c} hb hc' hbc e f he hf => ?_
    rw [hsetup.compare]
    exact hbc e f ((entryAt_detach_of_ne ((h.chained.mem_detach hc).mp hb).2).symm.trans he)
      ((entryAt_detach_of_ne ((h.chained.mem_detach hc).mp hc').2).symm.trans hf)

theorem Rep.contents_detach (h : Rep mem ht chains free) (hk : Coherent mem ht) {i a : ℕ}
    {pre post : List ℕ} {e : K × Option V} {key : K} (hc : chains i = pre ++ a :: post)
    (he : ht.entryAt a = some e) (hcmp : ht.compare mem e.1 key = true)
    (log : List (Reclaim K V)) :
    contents { ht.detach i pre.getLast? a with reclaimed := log }
      (Function.update chains i (pre ++ post)) =
      {f ∈ ht.contents chains | ht.compare mem f.1 key = false} := by
  have ha : a ∈ chains i := by
    rw [hc]
    simp
  ext f
  constructor
  · rintro ⟨j, b, hb, hf⟩
    obtain ⟨hb, hne⟩ := (h.chained.mem_detach hc).mp hb
    have hf : ht.entryAt b = some f := (entryAt_detach_of_ne hne).symm.trans hf
    refine ⟨⟨j, b, hb, hf⟩, ?_⟩
    rw [← hk.compare_congr hcmp, ← Bool.not_eq_true]
    exact fun hfe => hne (h.eq_of_compare hk hb ha hf he hfe)
  · rintro ⟨⟨j, b, hb, hf⟩, hcf⟩
    have hne : b ≠ a := by
      rintro rfl
      rw [hf, Option.some_inj] at he
      rw [he, hcmp] at hcf
      cases hcf
    exact ⟨j, b, (h.chained.mem_detach hc).mpr ⟨hb, hne⟩, (entryAt_detach_of_ne hne).trans hf⟩

/-! Overwriting an entry -/

/-- `htPut2` on a key that is in the table, but for the calls it logs. -/
def overwrite (ht : Hashtable M K V) (entry : ℕ) (key : K) (value : Option V) :
    Hashtable M K V :=
  { ht with
    heap := Function.update ht.heap entry { ht.heap entry with key := .key key, value := value } }

omit [DecidableEq K] [Pointer K] in
theorem entryAt_overwrite (a : ℕ) (key : K) (value : Option V) (b : ℕ) :
    (ht.overwrite a key value).entryAt b = if b = a then some (key, value) else ht.entryAt b := by
  simp only [entryAt, overwrite, Function.update_apply]
  split_ifs <;> rfl

omit [DecidableEq K] [Pointer K] in
theorem Chained.overwrite (h : Chained ht chains free) {i a : ℕ} (ha : a ∈ chains i) (key : K)
    (value : Option V) (log : List (Reclaim K V)) :
    Chained { ht.overwrite a key value with reclaimed := log } chains free := by
  have hnext : (ht.overwrite a key value).next = ht.next := by
    funext b
    simp only [next, Hashtable.overwrite, Function.update_apply]
    split_ifs with hb <;> simp [hb]
  have hfree : ∀ b ∈ free, (ht.overwrite a key value).heap b = ht.heap b := by
    intro b hb
    have hne : b ≠ a := fun hba => h.notMem_free ha (hba ▸ hb)
    exact Function.update_of_ne hne _ _
  refine ⟨h.wf, fun j => ?_, fun j b hb => ?_, h.apart, h.slots, ?_, fun b hb => ?_, h.blocks⟩
  · change Chain (ht.overwrite a key value).next (ht.backbone j) (chains j)
    rw [hnext]
    exact h.chain j
  · change ∃ f, (ht.overwrite a key value).entryAt b = some f
    rw [entryAt_overwrite]
    split_ifs with hba
    · exact ⟨_, rfl⟩
    · exact h.live j b hb
  · refine h.freeChain.congr fun b hb => ?_
    change (ht.overwrite a key value).link b = ht.link b
    simp only [link, hfree b hb]
  · obtain ⟨q, hq⟩ := h.freed b hb
    refine ⟨q, ?_⟩
    change ((ht.overwrite a key value).heap b).key = .link q
    rw [hfree b hb, hq]

theorem Rep.overwrite (h : Rep mem ht chains free) (hk : Coherent mem ht) {i a : ℕ}
    {e : K × Option V} {key : K} (ha : a ∈ chains i) (he : ht.entryAt a = some e)
    (hcmp : ht.compare mem e.1 key = true) (value : Option V) (log : List (Reclaim K V)) :
    Rep mem { ht.overwrite a key value with reclaimed := log } chains free := by
  have hover := h.chained.overwrite ha key value log
  -- equal keys stay equal when one is replaced by an equal one
  have hold : ∀ {b f}, (ht.overwrite a key value).entryAt b = some f →
      ∃ f', ht.entryAt b = some f' ∧ ht.compare mem f'.1 f.1 = true := by
    intro b f hf
    rw [entryAt_overwrite] at hf
    split_ifs at hf with hb
    · subst hb
      cases hf
      exact ⟨e, he, hcmp⟩
    · exact ⟨f, hf, hk.equivalence.refl f.1⟩
  refine ⟨hover.wf, h.size_pos, hover.chain, fun j b hb => ?_, fun j => ?_, hover.freeChain,
    hover.freed, hover.blocks⟩
  · obtain ⟨f, hf, hp⟩ := h.keyed j b hb
    change ∃ f, (ht.overwrite a key value).entryAt b = some f ∧ ht.place mem f.1 = j
    rw [entryAt_overwrite]
    split_ifs with hba
    · subst hba
      rw [he, Option.some_inj] at hf
      refine ⟨_, rfl, ?_⟩
      rw [← hk.place_eq hcmp, hf, hp]
    · exact ⟨f, hf, hp⟩
  · refine (h.distinct j).imp fun {b c} hbc f g hf hg => ?_
    obtain ⟨f', hf', hff⟩ := hold hf
    obtain ⟨g', hg', hgg⟩ := hold hg
    have hfg := hbc f' g' hf' hg'
    change ht.compare mem f.1 g.1 = false
    rw [← hk.compare_congr hgg, hk.compare_comm, ← hk.compare_congr hff, hk.compare_comm, hfg]

theorem Rep.contents_overwrite (h : Rep mem ht chains free) (hk : Coherent mem ht) {i a : ℕ}
    {e : K × Option V} {key : K} (ha : a ∈ chains i) (he : ht.entryAt a = some e)
    (hcmp : ht.compare mem e.1 key = true) (value : Option V) (log : List (Reclaim K V)) :
    contents { ht.overwrite a key value with reclaimed := log } chains =
      insert (key, value) {f ∈ ht.contents chains | ht.compare mem f.1 key = false} := by
  have hentry : ∀ b, entryAt { ht.overwrite a key value with reclaimed := log } b =
      if b = a then some (key, value) else ht.entryAt b := entryAt_overwrite a key value
  ext f
  rw [Set.mem_insert_iff]
  constructor
  · rintro ⟨j, b, hb, hf⟩
    rw [hentry] at hf
    split_ifs at hf with hba
    · exact .inl (Option.some_inj.mp hf).symm
    · refine .inr ⟨⟨j, b, hb, hf⟩, ?_⟩
      rw [← hk.compare_congr hcmp, ← Bool.not_eq_true]
      exact fun hfe => hba (h.eq_of_compare hk hb ha hf he hfe)
  · rintro (rfl | ⟨⟨j, b, hb, hf⟩, hcf⟩)
    · exact ⟨i, a, ha, by rw [hentry, if_pos rfl]⟩
    · have hne : b ≠ a := by
        rintro rfl
        rw [hf, Option.some_inj] at he
        rw [he, hcmp] at hcf
        cases hcf
      exact ⟨j, b, hb, by rw [hentry, if_neg hne, hf]⟩

/-! Adding an entry -/

/-- `htPut2` on a key that is not in the table. -/
def pushEntry (ht : Hashtable M K V) (mgr : FixedBlockMgr) (place newEntry : ℕ) (key : K)
    (value : Option V) : Hashtable M K V :=
  { ht with
    mgr := mgr
    heap := Function.update ht.heap newEntry ⟨.key key, value, ht.backbone place⟩
    backbone := Function.update ht.backbone place (some newEntry) }

omit [DecidableEq K] [Pointer K] in
theorem Chained.fbMgrAlloc_spec (h : Chained ht chains free) :
    ∃ a mgr free', fbMgrAlloc ht.readLink ht.mgr = .ok (a, mgr) ∧ mgr.Wf ∧
      Chain ht.link mgr.freeList free' ∧ a ∉ free' ∧ (∀ b ∈ free', b ∈ free) ∧
      (∀ i, a ∉ chains i) ∧ ∀ b, b ∈ mgr.blocks ↔ b = a ∨ b ∈ free' ∨ ∃ i, b ∈ chains i := by
  obtain ⟨hsome, hnone⟩ := h.wf.fbMgrAlloc_spec ht.readLink
  have hfc := h.freeChain
  cases free with
  | nil =>
    obtain ⟨a, mgr, halloc, hwf, hf, hnew, hb⟩ := hnone (chain_nil.mp hfc)
    refine ⟨a, mgr, [], halloc, hwf, hf, by simp, by simp, fun i hi => ?_, fun b => ?_⟩
    · exact hnew ((h.blocks a).mpr (.inr ⟨i, hi⟩))
    · rw [hb, Set.mem_insert_iff, h.blocks b]
  | cons a free' =>
    obtain ⟨hf, hfc'⟩ := hfc
    obtain ⟨q, hq⟩ := h.freed a (by simp)
    have hlink : ht.link a = q := by simp [link, hq]
    rw [hlink] at hfc'
    refine ⟨a, _, free', hsome a q hf (by simp [readLink, hq]), h.wf.setFreeList q, hfc',
      (List.nodup_cons.mp h.freeChain.nodup).1, by simp +contextual, fun i hi => ?_, fun b => ?_⟩
    · exact h.notMem_free hi (by simp)
    · rw [FixedBlockMgr.blocks_setFreeList, h.blocks b, List.mem_cons, or_assoc]

omit [DecidableEq K] [Pointer K] in
theorem entryAt_pushEntry (ht : Hashtable M K V) (mgr : FixedBlockMgr) (place a : ℕ) (key : K)
    (value : Option V) (b : ℕ) : (ht.pushEntry mgr place a key value).entryAt b =
      if b = a then some (key, value) else ht.entryAt b := by
  simp only [entryAt, pushEntry, Function.update_apply]
  split_ifs <;> rfl

omit [DecidableEq K] [Pointer K] in
theorem next_pushEntry (mgr : FixedBlockMgr) (place a : ℕ) (key : K) (value : Option V) :
    (ht.pushEntry mgr place a key value).next =
      Function.update ht.next a (ht.backbone place) := by
  funext b
  simp only [next, pushEntry, Function.update_apply]
  split_ifs <;> rfl

omit [DecidableEq K] [Pointer K] in
theorem mem_pushEntry {i a j b : ℕ} : b ∈ Function.update chains i (a :: chains i) j ↔
    (j = i ∧ b = a) ∨ b ∈ chains j := by
  by_cases hj : j = i
  · subst hj
    simp
  · simp [hj]

omit [DecidableEq K] [Pointer K] in
theorem Chained.pushEntry (h : Chained ht chains free) {i a : ℕ} (hi : i < ht.backboneSize)
    {mgr : FixedBlockMgr} {free' : List ℕ} (hwf : mgr.Wf) (hfc : Chain ht.link mgr.freeList free')
    (hafree : a ∉ free') (hsub : ∀ b ∈ free', b ∈ free) (hnew : ∀ i, a ∉ chains i)
    (hblocks : ∀ b, b ∈ mgr.blocks ↔ b = a ∨ b ∈ free' ∨ ∃ i, b ∈ chains i) (key : K)
    (value : Option V) :
    Chained (ht.pushEntry mgr i a key value) (Function.update chains i (a :: chains i)) free' := by
  have hentry := entryAt_pushEntry ht mgr i a key value
  have hheap : ∀ b ≠ a, (ht.pushEntry mgr i a key value).heap b = ht.heap b :=
    fun b hb => Function.update_of_ne hb _ _
  have hlive : ∀ {j b}, b ∈ chains j → b ≠ a := by
    rintro j b hb rfl
    exact hnew j hb
  refine ⟨hwf, fun j => ?_, fun j b hb => ?_, fun j k b hj hk => ?_, fun j b hb => ?_, ?_,
    fun b hb => ?_, fun b => ?_⟩
  · rw [next_pushEntry]
    change Chain _ (Function.update ht.backbone i (some a) j) _
    by_cases hj : j = i
    · subst hj
      rw [Function.update_self, Function.update_self]
      exact (h.chain j).push (hnew j)
    · rw [Function.update_of_ne hj, Function.update_of_ne hj]
      exact (h.chain j).update_of_notMem (hnew j)
  · rw [hentry]
    rcases mem_pushEntry.mp hb with ⟨-, rfl⟩ | hb
    · exact ⟨_, if_pos rfl⟩
    · rw [if_neg (hlive hb)]
      exact h.live j b hb
  · rcases mem_pushEntry.mp hj with ⟨hji, hba⟩ | hbj
    · rcases mem_pushEntry.mp hk with ⟨hki, -⟩ | hbk
      · rw [hji, hki]
      · exact absurd (hba ▸ hbk) (hnew k)
    · rcases mem_pushEntry.mp hk with ⟨-, hba⟩ | hbk
      · exact absurd (hba ▸ hbj) (hnew j)
      · exact h.apart j k b hbj hbk
  · rcases mem_pushEntry.mp hb with ⟨rfl, -⟩ | hb
    · exact hi
    · exact h.slots j b hb
  · refine Chain.congr (fun b hb => ?_) hfc
    have hne : b ≠ a := fun hba => hafree (hba ▸ hb)
    simp only [link, hheap b hne]
  · have hne : b ≠ a := fun hba => hafree (hba ▸ hb)
    rw [hheap b hne]
    exact h.freed b (hsub b hb)
  · change b ∈ mgr.blocks ↔ _
    rw [hblocks b]
    simp only [mem_pushEntry]
    constructor
    · rintro (rfl | hb | ⟨j, hb⟩)
      · exact .inr ⟨i, .inl ⟨rfl, rfl⟩⟩
      · exact .inl hb
      · exact .inr ⟨j, .inr hb⟩
    · rintro (hb | ⟨j, ⟨-, rfl⟩ | hb⟩)
      · exact .inr (.inl hb)
      · exact .inl rfl
      · exact .inr (.inr ⟨j, hb⟩)

theorem Rep.pushEntry (h : Rep mem ht chains free) (hk : Coherent mem ht) {i a : ℕ}
    {mgr : FixedBlockMgr} {free' : List ℕ} {key : K} (hi : ht.place mem key = i)
    (hwf : mgr.Wf) (hfc : Chain ht.link mgr.freeList free') (hafree : a ∉ free')
    (hsub : ∀ b ∈ free', b ∈ free) (hnew : ∀ i, a ∉ chains i)
    (hblocks : ∀ b, b ∈ mgr.blocks ↔ b = a ∨ b ∈ free' ∨ ∃ i, b ∈ chains i)
    (hkey : ∀ b ∈ chains i, ∀ e, ht.entryAt b = some e → ht.compare mem e.1 key = false)
    (value : Option V) :
    Rep mem (ht.pushEntry mgr i a key value) (Function.update chains i (a :: chains i)) free' := by
  have hlt : i < ht.backboneSize := hi ▸ Nat.mod_lt _ h.size_pos
  have hpush := h.chained.pushEntry hlt hwf hfc hafree hsub hnew hblocks key value
  have hentry := entryAt_pushEntry ht mgr i a key value
  have hlive : ∀ {j b}, b ∈ chains j → b ≠ a := by
    rintro j b hb rfl
    exact hnew j hb
  refine ⟨hwf, h.size_pos, hpush.chain, fun j b hb => ?_, fun j => ?_, hpush.freeChain, hpush.freed,
    hpush.blocks⟩
  · change ∃ e : K × Option V, _ ∧ ht.place mem e.1 = j
    rcases mem_pushEntry.mp hb with ⟨rfl, rfl⟩ | hb
    · exact ⟨_, by rw [hentry, if_pos rfl], hi⟩
    · obtain ⟨e, he, hp⟩ := h.keyed j b hb
      exact ⟨e, by rw [hentry, if_neg (hlive hb), he], hp⟩
  · have hold : (chains j).Pairwise (Differ mem (ht.pushEntry mgr i a key value)) := by
      refine (h.distinct j).imp_of_mem fun {b c} hb hc hbc e f he hf => ?_
      rw [hentry, if_neg (hlive hb)] at he
      rw [hentry, if_neg (hlive hc)] at hf
      exact hbc e f he hf
    by_cases hj : j = i
    · subst hj
      rw [Function.update_self]
      refine List.pairwise_cons.mpr ⟨fun b hb e f he hf => ?_, hold⟩
      rw [hentry, if_pos rfl] at he
      rw [hentry, if_neg (hlive hb)] at hf
      cases he
      change ht.compare mem key f.1 = false
      rw [hk.compare_comm]
      exact hkey b hb f hf
    · rwa [Function.update_of_ne hj]

omit [DecidableEq K] [Pointer K] in
theorem contents_pushEntry {mgr : FixedBlockMgr} {i a : ℕ} (hnew : ∀ i, a ∉ chains i) (key : K)
    (value : Option V) :
    (ht.pushEntry mgr i a key value).contents (Function.update chains i (a :: chains i)) =
      insert (key, value) (ht.contents chains) := by
  ext f
  rw [Set.mem_insert_iff]
  constructor
  · rintro ⟨j, b, hb, hf⟩
    rw [entryAt_pushEntry] at hf
    split_ifs at hf with hba
    · exact .inl (Option.some_inj.mp hf).symm
    · refine .inr ⟨j, b, ?_, hf⟩
      by_cases hj : j = i
      · subst hj
        simpa [hba] using hb
      · rwa [Function.update_of_ne hj] at hb
  · rintro (rfl | ⟨j, b, hb, hf⟩)
    · exact ⟨i, a, by simp, by rw [entryAt_pushEntry, if_pos rfl]⟩
    · have hne : b ≠ a := by
        rintro rfl
        exact hnew j hb
      refine ⟨j, b, ?_, by rw [entryAt_pushEntry, if_neg hne, hf]⟩
      by_cases hj : j = i
      · subst hj
        simp [hb]
      · rwa [Function.update_of_ne hj]

end Hashtable
end ZoweCommon
