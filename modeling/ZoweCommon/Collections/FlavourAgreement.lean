import Mathlib.Algebra.Group.Nat.Defs
import ZoweCommon.Collections.KeyFlavours

/-! The flavours of a hashtable as one generic table, whose slots are those of the flavours. -/
namespace ZoweCommon
namespace Hashtable

open Linked (First)

variable {M V : Type} {ht : Hashtable M (BitVec 64) V}

def Key.isUInt : Key → Bool
  | .uint _ => true
  | _ => false

/-- The table with a hash function that knows which pointers are unsigned integers. -/
def flavoured (uints : BitVec 64 → Bool) (ht : Hashtable M (BitVec 64) V) :
    Hashtable M (BitVec 64) V :=
  { ht with
    hashFunction := some fun _ key =>
      if uints key then BitVec.ofNat 32 ((INT_FROM_POINTER key).toNat % ht.backboneSize)
      else INT_FROM_POINTER key }

theorem int_from_pointer_int (key : BitVec 32) : INT_FROM_POINTER (POINTER_FROM_INT key) = key := by
  unfold INT_FROM_POINTER POINTER_FROM_INT
  ext i hi
  rw [BitVec.getElem_setWidth, BitVec.getLsbD_signExtend]
  simp [hi, Nat.lt_trans hi]

theorem int_from_pointer_uint (key : BitVec 32) :
    INT_FROM_POINTER (POINTER_FROM_UINT key) = key := by
  unfold INT_FROM_POINTER POINTER_FROM_UINT
  simp

theorem place_flavoured_of_not {uints : BitVec 64 → Bool} (mem : M) {pointer : BitVec 64}
    (h : uints pointer = false) : (ht.flavoured uints).place mem pointer =
      (INT_FROM_POINTER pointer &&& 0x7FFFFFFF#32).toNat % ht.backboneSize := by
  unfold Hashtable.place hashcode
  change ((if uints pointer = true then _ else INT_FROM_POINTER pointer) &&&
    0x7FFFFFFF#32).toNat % ht.backboneSize = _
  rw [h, if_neg Bool.false_ne_true]

/-- A slot is an `int`, so that it survives as a hash code. -/
theorem place_flavoured_of_uint {uints : BitVec 64 → Bool} (hpos : 0 < ht.backboneSize)
    (hsize : ht.backboneSize < 2 ^ 31) (mem : M) {pointer : BitVec 64}
    (h : uints pointer = true) : (ht.flavoured uints).place mem pointer =
      (INT_FROM_POINTER pointer).toNat % ht.backboneSize := by
  have hmask : (0x7FFFFFFF#32).toNat = 2 ^ 31 - 1 := by decide
  have hlt : (INT_FROM_POINTER pointer).toNat % ht.backboneSize < 2 ^ 31 :=
    (Nat.mod_lt _ hpos).trans hsize
  unfold Hashtable.place hashcode
  change ((if uints pointer = true then
      BitVec.ofNat 32 ((INT_FROM_POINTER pointer).toNat % ht.backboneSize)
    else _) &&& 0x7FFFFFFF#32).toNat % ht.backboneSize = _
  rw [h, if_pos rfl, BitVec.toNat_and, BitVec.toNat_ofNat, hmask, Nat.and_two_pow_sub_one_eq_mod,
    Nat.mod_eq_of_lt (hlt.trans (by decide)), Nat.mod_eq_of_lt hlt, Nat.mod_mod]

theorem place_flavoured {uints : BitVec 64 → Bool} (hpos : 0 < ht.backboneSize)
    (hsize : ht.backboneSize < 2 ^ 31) (mem : M) {key : Key}
    (hkey : uints key.toPointer = key.isUInt) :
    (ht.flavoured uints).place mem key.toPointer = ht.slot key := by
  cases key with
  | pointer key => exact place_flavoured_of_not mem hkey
  | int key =>
    refine (place_flavoured_of_not mem hkey).trans ?_
    dsimp only [Key.toPointer]
    rw [int_from_pointer_int]
    rfl
  | uint key =>
    refine (place_flavoured_of_uint hpos hsize mem hkey).trans ?_
    dsimp only [Key.toPointer]
    rw [int_from_pointer_uint]
    rfl

theorem find_flavoured (uints : BitVec 64 → Bool) (mem : M) (key : BitVec 64) (fuel : ℕ) :
    ∀ prev p, (ht.flavoured uints).find mem key fuel prev p = ht.find mem key fuel prev p := by
  induction fuel with
  | zero =>
    intro prev p
    cases p <;> rfl
  | succ fuel ih =>
    intro prev p
    cases p with
    | none => rfl
    | some entry =>
      have hheap : (ht.flavoured uints).heap entry = ht.heap entry := rfl
      have hnext : (ht.flavoured uints).next entry = ht.next entry := rfl
      have hcmp : (ht.flavoured uints).compare mem = ht.compare mem := rfl
      simp only [find, hheap, hcmp, hnext, ih]

/-- Walking for the bits ends where walking for the pointer does. -/
theorem findInt_eq_find (hcompare : ht.comparator = none) (mem : M) {pointer : BitVec 64}
    (fuel : ℕ) : ∀ prev p,
    (∀ a, First ht.next (ht.HasBits (INT_FROM_POINTER pointer)) p a →
      (ht.heap a).key = .key pointer) →
    ht.findInt (INT_FROM_POINTER pointer) fuel prev p = ht.find mem pointer fuel prev p := by
  have hcmp : ∀ k, ht.compare mem k pointer = (k == pointer) := by
    intro k
    unfold compare
    rw [hcompare]
  induction fuel with
  | zero =>
    intro prev p _
    cases p <;> rfl
  | succ fuel ih =>
    intro prev p hfirst
    cases p with
    | none => rfl
    | some entry =>
      unfold findInt find
      cases hkey : (ht.heap entry).key with
      | null => rfl
      | link q => rfl
      | key k =>
        dsimp only
        rw [hcmp]
        by_cases hbits : INT_FROM_POINTER k = INT_FROM_POINTER pointer
        · have hown := hfirst entry (.here ⟨k, hkey, hbits⟩)
          rw [hkey] at hown
          rw [if_pos hbits, if_pos (beq_iff_eq.mpr (Word.key.inj hown))]
        · have hne : k ≠ pointer := fun h => hbits (congrArg INT_FROM_POINTER h)
          have hnot : ¬ht.HasBits (INT_FROM_POINTER pointer) entry := by
            rintro ⟨q, hq, hqbits⟩
            rw [hkey] at hq
            cases hq
            exact hbits hqbits
          rw [if_neg hbits, if_neg (by rwa [beq_iff_eq])]
          exact ih _ _ fun a ha => hfirst a (.there hnot ha)

theorem unlink_flavoured (uints : BitVec 64 → Bool) (place : ℕ) (prev : Option ℕ) (entry : ℕ) :
    (ht.flavoured uints).unlink place prev entry =
      (ht.unlink place prev entry).flavoured uints := by
  cases prev <;> rfl

theorem reclaimKey_flavoured (uints : BitVec 64 → Bool) (entry : ℕ) :
    (ht.flavoured uints).reclaimKey entry = (ht.reclaimKey entry).flavoured uints := by
  unfold reclaimKey
  change (if ht.keyReclaimer = true then _ else _) = _
  split_ifs <;> rfl

theorem reclaimValue_flavoured (uints : BitVec 64 → Bool) (entry : ℕ) :
    (ht.flavoured uints).reclaimValue entry = (ht.reclaimValue entry).flavoured uints := by
  unfold reclaimValue
  change (if ht.valueReclaimer = true then _ else _) = _
  split_ifs <;> rfl

theorem htDequeue_flavoured (uints : BitVec 64 → Bool) (place : ℕ) (prev : Option ℕ) (entry : ℕ)
    (valueReclaim : Bool) : htDequeue (ht.flavoured uints) place prev entry valueReclaim =
      (htDequeue ht place prev entry valueReclaim).flavoured uints := by
  unfold htDequeue
  rw [unlink_flavoured, reclaimKey_flavoured]
  cases valueReclaim with
  | true =>
    simp only [if_true]
    rw [reclaimValue_flavoured]
    rfl
  | false => rfl

def walkKey (mem : M) (ht : Hashtable M (BitVec 64) V) : Key → Exec (Option ℕ × Option ℕ)
  | .pointer key => ht.walkFrom mem (ht.slot (.pointer key)) key
  | .int key => ht.walkFromInt (ht.placeInt key) key
  | .uint key => ht.walkFromInt (ht.placeUInt key) key

theorem walkFrom_flavoured (uints : BitVec 64 → Bool) (hcompare : ht.comparator = none) (mem : M)
    {key : Key} (hown : ht.Unmistakable key) :
    (ht.flavoured uints).walkFrom mem (ht.slot key) key.toPointer = ht.walkKey mem key := by
  refine (find_flavoured uints mem key.toPointer _ _ _).trans ?_
  cases key with
  | pointer key => rfl
  | int key =>
    refine (findInt_eq_find hcompare mem _ _ _ ?_).symm.trans ?_
    · dsimp only [Key.toPointer]
      rw [int_from_pointer_int]
      exact hown key (.inl rfl)
    · dsimp only [Key.toPointer]
      rw [int_from_pointer_int]
      rfl
  | uint key =>
    refine (findInt_eq_find hcompare mem _ _ _ ?_).symm.trans ?_
    · dsimp only [Key.toPointer]
      rw [int_from_pointer_uint]
      exact hown key (.inr rfl)
    · dsimp only [Key.toPointer]
      rw [int_from_pointer_uint]
      rfl

/-- What a get does once its walk has ended. -/
def getAt (mem : M) (ht : Hashtable M (BitVec 64) V) (place : ℕ) :
    Option ℕ × Option ℕ → Exec (Option V × Hashtable M (BitVec 64) V)
  | (prev, some entry) =>
    let value := (ht.heap entry).value
    if ht.entryExpired.any (· mem value) then
      return (none, htDequeue ht place prev entry true)
    else if ht.removeEntry.any (· mem value) then
      return (value, htDequeue ht place prev entry false)
    else return (value, ht)
  | (_, none) => return (none, ht)

/-- What a put does once its walk has ended. -/
def putAt (mem : M) (ht : Hashtable M (BitVec 64) V) (place : ℕ) (pointer : BitVec 64)
    (value : Option V) : Option ℕ × Option ℕ → Exec (ℕ × Hashtable M (BitVec 64) V)
  | (_, some entry) =>
    if ht.keepEntry.any (· mem (ht.heap entry).value) then return (2, ht)
    else
      let ht := (ht.reclaimKey entry).reclaimValue entry
      return (1, { ht with
        heap := Function.update ht.heap entry
          { ht.heap entry with key := .key pointer, value := value } })
  | (_, none) => do
    let tail := ht.backbone place
    let (newEntry, mgr) ← fbMgrAlloc ht.readLink ht.mgr
    return (0, { ht with
      mgr := mgr
      heap := Function.update ht.heap newEntry ⟨.key pointer, value, tail⟩
      backbone := Function.update ht.backbone place (some newEntry) })

theorem htGet_eq_getAt (mem : M) (ht : Hashtable M (BitVec 64) V) (key : BitVec 64) :
    htGet mem ht key =
      ht.walkFrom mem (ht.place mem key) key >>= ht.getAt mem (ht.place mem key) := by
  refine bind_congr fun found => ?_
  obtain ⟨prev, entry⟩ := found
  cases entry <;> rfl

theorem htPut_eq_putAt (mem : M) (ht : Hashtable M (BitVec 64) V) (key : BitVec 64)
    (value : Option V) : htPut mem ht key value =
      ht.walkFrom mem (ht.place mem key) key >>= ht.putAt mem (ht.place mem key) key value := by
  refine bind_congr fun found => ?_
  obtain ⟨prev, entry⟩ := found
  cases entry <;> rfl

theorem putInt_eq_putAt (mem : M) (ht : Hashtable M (BitVec 64) V) (place : ℕ) (key : BitVec 32)
    (pointer : BitVec 64) (value : Option V) : ht.putInt mem place key pointer value =
      ht.walkFromInt place key >>= ht.putAt mem place pointer value := by
  refine bind_congr fun found => ?_
  obtain ⟨prev, entry⟩ := found
  cases entry <;> rfl

theorem place_of_hashFunction_none (hhash : ht.hashFunction = none) (mem : M) (key : BitVec 64) :
    ht.place mem key = ht.slot (.pointer key) := by
  unfold Hashtable.place hashcode
  rw [hhash]
  rfl

theorem first_of_findInt {key : BitVec 32} {q : Option ℕ} {a : ℕ} (fuel : ℕ) : ∀ prev p,
    ht.findInt key fuel prev p = .ok (q, some a) → First ht.next (ht.HasBits key) p a := by
  induction fuel with
  | zero =>
    intro prev p h
    cases p <;> cases h
  | succ fuel ih =>
    intro prev p h
    cases p with
    | none => cases h
    | some entry =>
      unfold findInt at h
      cases hkey : (ht.heap entry).key with
      | null =>
        rw [hkey] at h
        cases h
      | link q =>
        rw [hkey] at h
        cases h
      | key k =>
        rw [hkey] at h
        dsimp only at h
        by_cases hbits : INT_FROM_POINTER k = key
        · rw [if_pos hbits] at h
          cases h
          exact .here ⟨k, hkey, hbits⟩
        · rw [if_neg hbits] at h
          refine .there ?_ (ih _ _ h)
          rintro ⟨l, hl, hlbits⟩
          rw [hkey] at hl
          cases hl
          exact hbits hlbits

theorem getKey_eq_getAt (hhash : ht.hashFunction = none) (mem : M) {key : Key}
    (hlive : ht.Unexpiring (.get key)) :
    ht.getKey mem key = ht.walkKey mem key >>= ht.getAt mem (ht.slot key) := by
  cases key with
  | pointer key =>
    have hplace := place_of_hashFunction_none hhash mem key
    refine (htGet_eq_getAt mem ht key).trans ?_
    rw [hplace]
    rfl
  | uint key =>
    refine bind_congr fun found => ?_
    obtain ⟨prev, entry⟩ := found
    cases entry <;> rfl
  | int key =>
    change ht.walkFromInt (ht.placeInt key) key >>= _ =
      ht.walkFromInt (ht.placeInt key) key >>= _
    cases hwalk : ht.walkFromInt (ht.placeInt key) key with
    | error fault => rfl
    | ok found =>
      obtain ⟨prev, entry⟩ := found
      cases entry with
      | none => rfl
      | some entry =>
        rcases hlive with hnone | hfirst
        · rw [Exec.ok_bind, Exec.ok_bind]
          unfold getAt
          dsimp only
          rw [hnone]
          rfl
        · exact absurd (first_of_findInt _ _ _ hwalk) (hfirst entry)

theorem putKey_eq_putAt (hhash : ht.hashFunction = none) (mem : M) (key : Key)
    (value : Option V) : ht.putKey mem value key =
      ht.walkKey mem key >>= ht.putAt mem (ht.slot key) key.toPointer value := by
  cases key with
  | pointer key =>
    have hplace := place_of_hashFunction_none hhash mem key
    refine (htPut_eq_putAt mem ht key value).trans ?_
    rw [hplace]
    rfl
  | int key => exact putInt_eq_putAt mem ht _ key _ value
  | uint key => exact putInt_eq_putAt mem ht _ key _ value

theorem getAt_flavoured (uints : BitVec 64 → Bool) (mem : M) (place : ℕ)
    (found : Option ℕ × Option ℕ) : (ht.flavoured uints).getAt mem place found =
      (ht.getAt mem place found).map fun r => (r.1, r.2.flavoured uints) := by
  obtain ⟨prev, entry⟩ := found
  cases entry with
  | none => rfl
  | some entry =>
    unfold getAt
    simp only [htDequeue_flavoured]
    change (if ht.entryExpired.any (· mem (ht.heap entry).value) = true then _ else
      if ht.removeEntry.any (· mem (ht.heap entry).value) = true then _ else _) = _
    split_ifs <;> rfl

theorem putAt_flavoured (uints : BitVec 64 → Bool) (mem : M) (place : ℕ) (pointer : BitVec 64)
    (value : Option V) (found : Option ℕ × Option ℕ) :
    (ht.flavoured uints).putAt mem place pointer value found =
      (ht.putAt mem place pointer value found).map fun r => (r.1, r.2.flavoured uints) := by
  obtain ⟨prev, entry⟩ := found
  cases entry with
  | none =>
    unfold putAt
    have hread : (ht.flavoured uints).readLink = ht.readLink := rfl
    have hmgr : (ht.flavoured uints).mgr = ht.mgr := rfl
    dsimp only
    rw [hread, hmgr]
    cases fbMgrAlloc ht.readLink ht.mgr <;> rfl
  | some entry =>
    unfold putAt
    simp only [reclaimKey_flavoured, reclaimValue_flavoured]
    change (if ht.keepEntry.any (· mem (ht.heap entry).value) = true then _ else _) = _
    split_ifs <;> rfl

theorem sameSetup_htDequeue (ht : Hashtable M (BitVec 64) V) (place : ℕ) (prev : Option ℕ)
    (entry : ℕ) (valueReclaim : Bool) :
    SameSetup ht (htDequeue ht place prev entry valueReclaim) := by
  rw [htDequeue_eq]
  exact sameSetup_detach ht place prev entry _

theorem sameSetup_getAt {ht' : Hashtable M (BitVec 64) V} {mem : M} {place : ℕ}
    {found : Option ℕ × Option ℕ} {value : Option V}
    (h : ht.getAt mem place found = .ok (value, ht')) : SameSetup ht ht' := by
  obtain ⟨prev, entry⟩ := found
  cases entry with
  | none =>
    cases h
    exact SameSetup.refl ht
  | some entry =>
    unfold getAt at h
    dsimp only at h
    split_ifs at h
    · cases h
      exact sameSetup_htDequeue ht _ _ _ _
    · cases h
      exact sameSetup_htDequeue ht _ _ _ _
    · cases h
      exact SameSetup.refl ht

theorem sameSetup_putAt {ht' : Hashtable M (BitVec 64) V} {mem : M} {place n : ℕ}
    {pointer : BitVec 64} {value : Option V} {found : Option ℕ × Option ℕ}
    (h : ht.putAt mem place pointer value found = .ok (n, ht')) : SameSetup ht ht' := by
  obtain ⟨prev, entry⟩ := found
  cases entry with
  | none =>
    obtain ⟨cut, -, hput⟩ := Exec.bind_eq_ok.mp h
    cases hput
    exact ⟨rfl, rfl, rfl, rfl, rfl, rfl⟩
  | some entry =>
    unfold putAt at h
    simp only [reclaimKey_eq, reclaimValue_eq] at h
    split_ifs at h
    · cases h
      exact SameSetup.refl ht
    · cases h
      exact ⟨rfl, rfl, rfl, rfl, rfl, rfl⟩

/-- A table that, but for the slots it chooses, simulates a map from pointers. -/
structure Mirrors (uints : BitVec 64 → Bool) (P : Policy M V) (ht : Hashtable M (BitVec 64) V)
    (m : KeyedMap keys (Option V)) : Prop where
  pos : 0 < ht.backboneSize
  size : ht.backboneSize < 2 ^ 31
  hashFunction : ht.hashFunction = none
  comparator : ht.comparator = none
  simulates : Simulates P keys (ht.flavoured uints) m

section

variable {uints : BitVec 64 → Bool} {P : Policy M V} {m : KeyedMap keys (Option V)}
  (h : Mirrors uints P ht m) (mem : M)

include h

theorem Mirrors.perform_flavoured {call : KeyCall V}
    (hkey : uints call.key.toPointer = call.key.isUInt) (hown : ht.Unmistakable call.key)
    (hlive : ht.Unexpiring call) : (ht.flavoured uints).perform mem call.generic =
      (ht.performKey mem call).map fun r => (r.1, r.2.flavoured uints) := by
  have hwalk := walkFrom_flavoured uints h.comparator mem hown
  have hplace := place_flavoured h.pos h.size mem hkey
  cases call with
  | put key value =>
    dsimp only [KeyCall.key] at hwalk hplace
    change htPut mem (ht.flavoured uints) key.toPointer value >>= _ =
      ((ht.putKey mem value key).map _).map _
    rw [htPut_eq_putAt, hplace, hwalk, putKey_eq_putAt h.hashFunction]
    cases ht.walkKey mem key with
    | error fault => rfl
    | ok found =>
      rw [Exec.ok_bind, Exec.ok_bind, putAt_flavoured]
      cases ht.putAt mem (ht.slot key) key.toPointer value found <;> rfl
  | get key =>
    dsimp only [KeyCall.key] at hwalk hplace
    change htGet mem (ht.flavoured uints) key.toPointer >>= _ = ((ht.getKey mem key).map _).map _
    rw [htGet_eq_getAt, hplace, hwalk, getKey_eq_getAt h.hashFunction mem hlive]
    cases ht.walkKey mem key with
    | error fault => rfl
    | ok found =>
      rw [Exec.ok_bind, Exec.ok_bind, getAt_flavoured]
      cases ht.getAt mem (ht.slot key) found <;> rfl

theorem Mirrors.sameSetup {call : KeyCall V} (hlive : ht.Unexpiring call) {answer : Answer V}
    {ht' : Hashtable M (BitVec 64) V} (hrun : ht.performKey mem call = .ok (answer, ht')) :
    SameSetup ht ht' := by
  cases call with
  | put key value =>
    obtain ⟨⟨n, ht₁⟩, hput, hpair⟩ := Exec.bind_eq_ok.mp hrun
    cases hpair
    rw [putKey_eq_putAt h.hashFunction] at hput
    obtain ⟨found, -, hat⟩ := Exec.bind_eq_ok.mp hput
    exact sameSetup_putAt hat
  | get key =>
    obtain ⟨⟨value, ht₁⟩, hget, hpair⟩ := Exec.bind_eq_ok.mp hrun
    cases hpair
    rw [getKey_eq_getAt h.hashFunction mem hlive] at hget
    obtain ⟨found, -, hat⟩ := Exec.bind_eq_ok.mp hget
    exact sameSetup_getAt hat

theorem Mirrors.perform {call : KeyCall V} (hkey : uints call.key.toPointer = call.key.isUInt)
    (hown : ht.Unmistakable call.key) (hlive : ht.Unexpiring call) :
    ∃ ht', ht.performKey mem call = .ok ((call.generic.meaning P mem m).1, ht') ∧
      Mirrors uints P ht' (call.generic.meaning P mem m).2 := by
  obtain ⟨ht₁, hrun, hsim⟩ := h.simulates.perform mem call.generic
  rw [h.perform_flavoured mem hkey hown hlive] at hrun
  cases hperform : ht.performKey mem call with
  | error fault =>
    rw [hperform] at hrun
    cases hrun
  | ok r =>
    obtain ⟨answer, ht'⟩ := r
    have hsetup := h.sameSetup mem hlive hperform
    rw [hperform] at hrun
    obtain ⟨hanswer, htable⟩ := Prod.mk.inj (Except.ok.inj hrun)
    dsimp only at hanswer htable
    rw [← htable] at hsim
    exact ⟨ht', by rw [hanswer], hsetup.backboneSize ▸ h.pos, hsetup.backboneSize ▸ h.size,
      hsetup.hashFunction.trans h.hashFunction, hsetup.comparator.trans h.comparator, hsim⟩

end

/-- By induction on the calls: each does what its generic one means. -/
theorem Mirrors.performKeys {uints : BitVec 64 → Bool} {P : Policy M V}
    (calls : List (M × KeyCall V)) : ∀ {ht : Hashtable M (BitVec 64) V}
    {m : KeyedMap keys (Option V)}, Mirrors uints P ht m →
    (∀ c ∈ calls, uints c.2.key.toPointer = c.2.key.isUInt) → ht.RunMeets calls →
    ∃ ht', ht.performKeys calls =
      .ok ((meaningAll P m (calls.map fun c => (c.1, c.2.generic))).1, ht') := by
  induction calls with
  | nil => exact fun {ht m} _ _ _ => ⟨ht, rfl⟩
  | cons c calls ih =>
    obtain ⟨mem, call⟩ := c
    intro ht m h hkeys hmeets
    obtain ⟨⟨hown, hlive⟩, hrest⟩ := hmeets
    obtain ⟨ht₁, hrun₁, h₁⟩ :=
      h.perform mem (hkeys (mem, call) List.mem_cons_self) hown hlive
    obtain ⟨ht₂, hrun₂⟩ := ih h₁ (fun c hc => hkeys c (List.mem_cons_of_mem _ hc))
      (hrest _ ht₁ hrun₁)
    refine ⟨ht₂, ?_⟩
    unfold Hashtable.performKeys
    rw [hrun₁, Exec.ok_bind]
    dsimp only
    rw [hrun₂]
    rfl

/-! Keys that their bits tell apart -/

theorem Key.int_from_pointer_toPointer {key : Key} {k : BitVec 32}
    (h : key = .int k ∨ key = .uint k) : INT_FROM_POINTER key.toPointer = k := by
  rcases h with rfl | rfl
  · exact int_from_pointer_int k
  · exact int_from_pointer_uint k

theorem Mirrors.unmistakable {uints : BitVec 64 → Bool} {P : Policy M V}
    {m : KeyedMap keys (Option V)} (h : Mirrors uints P ht m) (mem : M) {key : Key}
    (hapart : ∀ e ∈ m.entries, INT_FROM_POINTER e.1 = INT_FROM_POINTER key.toPointer →
      e.1 = key.toPointer) : ht.Unmistakable key := by
  intro k hk a ha
  obtain ⟨chains, hholds⟩ := h.simulates.holds mem
  have hchain : Linked.Chain ht.next (ht.backbone (ht.slot key)) (chains (ht.slot key)) :=
    hholds.chain _
  obtain ⟨hmem, q, hq, hbits⟩ := hchain.mem_of_first ha
  obtain ⟨e, he, -⟩ := hholds.entryAt _ a hmem
  have hkey : (ht.heap a).key = .key e.1 := (entryAt_eq_some.mp he).1
  have hcontents : e ∈ m.entries := by
    obtain ⟨chains', free, hrep, hset⟩ := h.simulates.represents mem
    have hsame : chains' (ht.slot key) = chains (ht.slot key) :=
      (hrep.chain _).unique (hholds.chain _)
    have hin : e ∈ (ht.flavoured uints).contents chains' := ⟨_, a, by rwa [hsame], he⟩
    rwa [hset] at hin
  rw [hkey] at hq
  cases hq
  rw [hkey, hapart e hcontents (by rw [hbits, Key.int_from_pointer_toPointer hk])]

theorem KeyCall.mem_meaning {P : Policy M V} {mem : M}
    {m : KeyedMap keys (Option V)} (call : KeyCall V) {e : BitVec 64 × Option V}
    (he : e ∈ (call.generic.meaning P mem m).2.entries) :
    e ∈ m.entries ∨ e.1 = call.key.toPointer := by
  cases call with
  | put key value =>
    have hput : e ∈ (m.put key.toPointer value).entries → e ∈ m.entries ∨ e.1 = key.toPointer := by
      intro he
      rcases KeyedMap.mem_put.mp he with rfl | ⟨hold, -⟩
      · exact .inr rfl
      · exact .inl hold
    unfold KeyCall.generic Call.meaning at he
    dsimp only at he
    cases hfind : m.find key.toPointer with
    | none =>
      rw [hfind] at he
      exact hput he
    | some f =>
      rw [hfind] at he
      dsimp only at he
      split_ifs at he
      · exact .inl he
      · exact hput he
  | get key =>
    unfold KeyCall.generic Call.meaning at he
    dsimp only at he
    cases hfind : m.find key.toPointer with
    | none =>
      rw [hfind] at he
      exact .inl he
    | some f =>
      rw [hfind] at he
      dsimp only at he
      split_ifs at he
      · exact .inl (KeyedMap.mem_erase.mp he).1
      · exact .inl (KeyedMap.mem_erase.mp he).1
      · exact .inl he

/-- By induction on the calls: only their keys are ever in the table. -/
theorem Mirrors.runMeets {uints : BitVec 64 → Bool} {P : Policy M V} {pointers : Set (BitVec 64)}
    (hapart : ∀ p ∈ pointers, ∀ q ∈ pointers, INT_FROM_POINTER p = INT_FROM_POINTER q → p = q)
    (calls : List (M × KeyCall V)) : ∀ {ht : Hashtable M (BitVec 64) V}
    {m : KeyedMap keys (Option V)}, Mirrors uints P ht m →
    (∀ e ∈ m.entries, e.1 ∈ pointers) →
    (∀ c ∈ calls, c.2.key.toPointer ∈ pointers ∧ uints c.2.key.toPointer = c.2.key.isUInt) →
    (P.entryExpired = none ∨ ∀ c ∈ calls, ∀ k, c.2 ≠ .get (.int k)) → ht.RunMeets calls := by
  induction calls with
  | nil => exact fun {ht m} _ _ _ _ => trivial
  | cons c calls ih =>
    obtain ⟨mem, call⟩ := c
    intro ht m h hentries hkeys hexpired
    obtain ⟨hpointer, huints⟩ := hkeys (mem, call) List.mem_cons_self
    have hown : ht.Unmistakable call.key :=
      h.unmistakable mem fun e he hbits => hapart _ (hentries e he) _ hpointer hbits
    have hlive : ht.Unexpiring call := by
      have hpolicy : P.entryExpired = ht.entryExpired :=
        congrArg Policy.entryExpired h.simulates.policy
      cases call with
      | put key value => trivial
      | get key =>
        cases key with
        | pointer key => trivial
        | uint key => trivial
        | int key =>
          rcases hexpired with hnone | hnever
          · exact .inl (hpolicy.symm.trans hnone)
          · exact absurd rfl (hnever _ List.mem_cons_self key)
    obtain ⟨ht₁, hrun, h₁⟩ := h.perform mem huints hown hlive
    refine ⟨⟨hown, hlive⟩, fun answer ht' hrun' => ?_⟩
    cases hrun.symm.trans hrun'
    refine ih h₁ (fun e he => ?_) (fun c hc => hkeys c (List.mem_cons_of_mem _ hc))
      (hexpired.imp id fun hnever c hc => hnever c (List.mem_cons_of_mem _ hc))
    rcases call.mem_meaning he with hold | hnew
    · exact hentries e hold
    · exact hnew ▸ hpointer

/-- The calls with an unsigned integer tell which pointers are such. -/
def uintsOf (calls : List (M × KeyCall V)) (pointer : BitVec 64) : Bool :=
  calls.any fun c => c.2.key.toPointer == pointer && c.2.key.isUInt

theorem OwnFlavours.uintsOf_eq {calls : List (M × KeyCall V)} (hown : OwnFlavours calls)
    {c : M × KeyCall V} (hc : c ∈ calls) : uintsOf calls c.2.key.toPointer = c.2.key.isUInt := by
  rw [Bool.eq_iff_iff]
  unfold uintsOf
  rw [List.any_eq_true]
  constructor
  · rintro ⟨d, hd, hdc⟩
    obtain ⟨hpointer, huint⟩ := Bool.and_eq_true_iff.mp hdc
    rwa [hown d hd c hc (beq_iff_eq.mp hpointer)] at huint
  · intro huint
    exact ⟨c, hc, Bool.and_eq_true_iff.mpr ⟨beq_self_eq_true _, huint⟩⟩

section

variable {safeMalloc : ℕ → ℕ} {backboneSize : ℕ} {P : Policy M V} {calls : List (M × KeyCall V)}

theorem mirrors_create (uints : BitVec 64 → Bool) (keyReclaimer valueReclaimer : Bool)
    (P : Policy M V) (hpos : 0 < backboneSize) (hsize : backboneSize < 2 ^ 31)
    (hd : ∀ i j, i < j →
      safeMalloc i + FixedBlockMgr.extentSize HASHENTRY_SIZE 256 ≤ safeMalloc j ∨
      safeMalloc j + FixedBlockMgr.extentSize HASHENTRY_SIZE 256 ≤ safeMalloc i) :
    Mirrors uints P (create safeMalloc backboneSize none none keyReclaimer valueReclaimer P)
      (KeyedMap.empty keys) where
  pos := hpos
  size := hsize
  hashFunction := rfl
  comparator := rfl
  simulates := @simulates_create M (BitVec 64) V _ _ safeMalloc backboneSize
    (some fun key =>
      if uints key then BitVec.ofNat 32 ((INT_FROM_POINTER key).toNat % backboneSize)
      else INT_FROM_POINTER key) none keyReclaimer valueReclaimer
    P hpos hd keyCompare_equivalence
    fun k l hkl => by rw [keys_iff.mp hkl]

/-- Keys that their lower bits tell apart, and no `int` got while something may expire. -/
theorem runMeets_create (keyReclaimer valueReclaimer : Bool) (hpos : 0 < backboneSize)
    (hsize : backboneSize < 2 ^ 31)
    (hd : ∀ i j, i < j →
      safeMalloc i + FixedBlockMgr.extentSize HASHENTRY_SIZE 256 ≤ safeMalloc j ∨
      safeMalloc j + FixedBlockMgr.extentSize HASHENTRY_SIZE 256 ≤ safeMalloc i)
    (hown : OwnFlavours calls)
    (hapart : ∀ c ∈ calls, ∀ d ∈ calls,
      INT_FROM_POINTER c.2.key.toPointer = INT_FROM_POINTER d.2.key.toPointer →
        c.2.key.toPointer = d.2.key.toPointer)
    (hexpired : P.entryExpired = none ∨ ∀ c ∈ calls, ∀ k, c.2 ≠ .get (.int k)) :
    RunMeets (create safeMalloc backboneSize none none keyReclaimer valueReclaimer P) calls := by
  have hcreate := mirrors_create (uintsOf calls) keyReclaimer valueReclaimer P hpos hsize hd
  refine @Mirrors.runMeets M V _ P {p | ∃ c ∈ calls, c.2.key.toPointer = p} ?_ calls _ _ hcreate
    (fun e he => absurd he (Finset.notMem_empty e))
    (fun c hc => ⟨⟨c, hc, rfl⟩, hown.uintsOf_eq hc⟩) hexpired
  rintro p ⟨c, hc, rfl⟩ q ⟨d, hd, rfl⟩ hbits
  exact hapart c hc d hd hbits

/-- In a run whose every call meets the condition the flavours agree, and the answers are those
of a map from pointers: what has expired is dropped, and what has not is returned. -/
theorem performKeys_eq_performAll (keyReclaimer valueReclaimer : Bool)
    (hpos : 0 < backboneSize) (hsize : backboneSize < 2 ^ 31)
    (hd : ∀ i j, i < j →
      safeMalloc i + FixedBlockMgr.extentSize HASHENTRY_SIZE 256 ≤ safeMalloc j ∨
      safeMalloc j + FixedBlockMgr.extentSize HASHENTRY_SIZE 256 ≤ safeMalloc i)
    (hown : OwnFlavours calls)
    (hmeets : RunMeets
      (create safeMalloc backboneSize none none keyReclaimer valueReclaimer P) calls) :
    ∃ answers ht ht',
      performKeys (create safeMalloc backboneSize none none keyReclaimer valueReclaimer P) calls =
        .ok (answers, ht) ∧
      performAll (create safeMalloc backboneSize none none keyReclaimer valueReclaimer P)
        (calls.map fun c => (c.1, c.2.generic)) = .ok (answers, ht') ∧
      answers = (meaningAll P (KeyedMap.empty keys)
        (calls.map fun c => (c.1, c.2.generic))).1 := by
  have hcreate := mirrors_create (uintsOf calls) keyReclaimer valueReclaimer P hpos hsize hd
  obtain ⟨ht, hrun⟩ :=
    hcreate.performKeys calls (fun c hc => hown.uintsOf_eq hc) hmeets
  have hgeneric := @simulates_create M (BitVec 64) V _ _ safeMalloc backboneSize none none
    keyReclaimer valueReclaimer P hpos hd keyCompare_equivalence
    fun k l hkl => by rw [keys_iff.mp hkl]
  obtain ⟨ht', hrun', -⟩ := hgeneric.performAll (calls.map fun c => (c.1, c.2.generic))
  exact ⟨_, ht, ht', hrun, hrun', rfl⟩

end

def putAndGet (key : Key) : List (Unit × KeyCall ℕ) := [((), .put key (some 5)), ((), .get key)]

theorem key_of_mem_putAndGet {key : Key} {c : Unit × KeyCall ℕ} (hc : c ∈ putAndGet key) :
    c.2.key = key := by
  unfold putAndGet at hc
  simp only [List.mem_cons, List.not_mem_nil, or_false] at hc
  rcases hc with rfl | rfl <;> rfl

theorem ownFlavours_putAndGet (key : Key) : OwnFlavours (putAndGet key) := by
  intro c hc d hd _
  rw [key_of_mem_putAndGet hc, key_of_mem_putAndGet hd]

/-- A predicate by which no entry has expired. -/
def fresh : Policy Unit ℕ := ⟨none, some fun _ _ => false, none⟩

theorem performKeys_eq_performAll_uint :
    ∃ answers ht ht',
      performKeys (create (fun i => i * 10000) 3 none none false false fresh)
        (putAndGet (.uint 7)) = .ok (answers, ht) ∧
      performAll (create (fun i => i * 10000) 3 none none false false fresh)
        ((putAndGet (.uint 7)).map fun c => (c.1, c.2.generic)) = .ok (answers, ht') ∧
      answers = (meaningAll fresh (KeyedMap.empty keys)
        ((putAndGet (.uint 7)).map fun c => (c.1, c.2.generic))).1 := by
  have hown := ownFlavours_putAndGet (.uint 7)
  refine performKeys_eq_performAll false false (by decide) (by decide) extents_apart
    hown (runMeets_create false false (by decide) (by decide) extents_apart hown ?_
    (.inr ?_))
  · intro c hc d hd _
    rw [key_of_mem_putAndGet hc, key_of_mem_putAndGet hd]
  · intro c hc k hget
    have hkey := key_of_mem_putAndGet hc
    rw [hget] at hkey
    cases hkey

/-- An entry that has not expired is lost to `htIntGet`, which takes it to have expired. -/
theorem not_performKeys_eq_performAll : OwnFlavours (putAndGet (.int 7)) ∧
    ¬∃ answers ht ht',
      performKeys (create (fun i => i * 10000) 3 none none false false fresh)
        (putAndGet (.int 7)) = .ok (answers, ht) ∧
      performAll (create (fun i => i * 10000) 3 none none false false fresh)
        ((putAndGet (.int 7)).map fun c => (c.1, c.2.generic)) = .ok (answers, ht') := by
  refine ⟨ownFlavours_putAndGet (.int 7), ?_⟩
  rintro ⟨answers, ht, ht', hkeys, hgeneric⟩
  have hlost : (performKeys (create (fun i => i * 10000) 3 none none false false fresh)
      (putAndGet (.int 7))).toOption.map Prod.fst = some [.status 0, .value none] := rfl
  have hkept : (performAll (create (fun i => i * 10000) 3 none none false false fresh)
      ((putAndGet (.int 7)).map fun c => (c.1, c.2.generic))).toOption.map Prod.fst =
        some [.status 0, .value (some 5)] := rfl
  rw [hkeys] at hlost
  rw [hgeneric] at hkept
  cases hlost.symm.trans hkept

end Hashtable
end ZoweCommon
