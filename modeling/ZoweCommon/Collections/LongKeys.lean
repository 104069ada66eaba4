import ZoweCommon.Collections.HashtableMap
import ZoweCommon.Collections.LongOwnership

/-! What one key of a table with integer keys has to do with another. -/
namespace ZoweCommon
namespace LongHashtable

open Hashtable (Policy Simulates keys keys_iff)

variable {M V : Type}

/-- What a get returns. -/
def got (mem : M) (lht : LongHashtable M V) (key : BitVec 64) : Exec (Option V) :=
  (lhtGet mem lht key).map Prod.fst

/-- A put or a remove of one key does not change what is got for another, and what is put is got,
whatever the memory is by then. -/
structure Separate (mem : M) (lht : LongHashtable M V) (k j : BitVec 64) : Prop where
  put : ∀ v, ∃ n lht', lhtPut mem lht k v = .ok (n, lht') ∧
    (∀ mem', got mem' lht' j = got mem' lht j) ∧ ∀ mem', got mem' lht' k = .ok v
  remove : ∃ n lht', lhtRemove lht k = .ok (n, lht') ∧ ∀ mem', got mem' lht' j = got mem' lht j

/-! The map that a table simulates -/

def policy (lht : LongHashtable M V) : Policy M V :=
  ⟨lht.keepEntry, lht.entryExpired, lht.removeEntry⟩

/-- A table whose size is an `int`, with the map that it simulates. -/
structure Maps (lht : LongHashtable M V) (m : KeyedMap keys (Option V)) : Prop where
  pos : 0 < lht.backboneSize
  size : lht.backboneSize < 2 ^ 31
  simulates : Simulates lht.policy keys lht.toHashtable m

theorem Maps.perform {lht : LongHashtable M V} {m : KeyedMap keys (Option V)} (h : Maps lht m)
    (mem : M) (call : Call V) :
    ∃ lht', lht.perform mem call = .ok ((call.toCall.meaning lht.policy mem m).1, lht') ∧
      lht'.policy = lht.policy ∧ Maps lht' (call.toCall.meaning lht.policy mem m).2 := by
  obtain ⟨ht', hrun, hsim⟩ := h.simulates.perform mem call.toCall
  obtain ⟨chains, free, hrep, -⟩ := h.simulates.represents mem
  obtain ⟨answer, ht₁, chains₁, free₁, log, lost, hbook⟩ :=
    hrep.chained.perform h.pos mem call.toCall
  cases hbook.run.symm.trans hrun
  rw [perform_toHashtable h.size h.pos] at hrun
  cases hperform : lht.perform mem call with
  | error fault =>
    rw [hperform] at hrun
    cases hrun
  | ok r =>
    rw [hperform] at hrun
    obtain ⟨answer, lht'⟩ := r
    obtain ⟨hanswer, htable⟩ := Prod.mk.inj (Except.ok.inj hrun)
    dsimp only at hanswer htable
    rw [← htable] at hsim
    have hpolicy : lht'.policy = lht.policy := hsim.policy.symm
    have hsize : lht'.backboneSize = lht.backboneSize := by
      have hsetup := hbook.setup.backboneSize
      rw [← htable] at hsetup
      exact hsetup
    refine ⟨lht', by rw [hanswer], hpolicy, ?_, ?_, ?_⟩
    · rw [hsize]
      exact h.pos
    · rw [hsize]
      exact h.size
    · rw [hpolicy]
      exact hsim

theorem Maps.create {safeMalloc : ℕ → ℕ} {backboneSize : ℕ} (valueReclaimer : Bool)
    (hpos : 0 < backboneSize) (hsize : backboneSize < 2 ^ 31) (hd : ∀ i j, i < j →
      safeMalloc i + FixedBlockMgr.extentSize HASHENTRY_SIZE 256 ≤ safeMalloc j ∨
      safeMalloc j + FixedBlockMgr.extentSize HASHENTRY_SIZE 256 ≤ safeMalloc i) :
    Maps (lhtCreate safeMalloc backboneSize valueReclaimer : LongHashtable M V)
      (KeyedMap.empty keys) where
  pos := hpos
  size := hsize
  simulates := @Hashtable.simulates_create M (BitVec 64) V _ _ safeMalloc backboneSize
    (some fun key => BitVec.ofNat 32 (key.toNat % backboneSize)) none false valueReclaimer
    ⟨none, none, none⟩ hpos hd Hashtable.keyCompare_equivalence
    fun k l hkl => by rw [keys_iff.mp hkl]

/-- The value of an entry, unless it has expired. -/
def valueOf (P : Policy M V) (mem : M) (found : Option (BitVec 64 × Option V)) : Option V :=
  found.bind fun e => if P.entryExpired.any (· mem e.2) then none else e.2

theorem Maps.got {lht : LongHashtable M V} {m : KeyedMap keys (Option V)} (h : Maps lht m)
    (mem : M) (key : BitVec 64) :
    LongHashtable.got mem lht key = .ok (valueOf lht.policy mem (m.find (mask key))) := by
  obtain ⟨lht', hrun, -, -⟩ := h.perform mem (.get key)
  have hmeaning : ((Call.get key : Call V).toCall.meaning lht.policy mem m).1 =
      .value (valueOf lht.policy mem (m.find (mask key))) := by
    unfold Call.toCall Hashtable.Call.meaning valueOf
    dsimp only
    cases m.find (mask key) with
    | none => rfl
    | some e =>
      dsimp only [Option.bind_some]
      split_ifs <;> rfl
  rw [hmeaning] at hrun
  obtain ⟨⟨value, lht₁⟩, hget, hpair⟩ := Exec.bind_eq_ok.mp hrun
  obtain ⟨hanswer, -⟩ := Prod.mk.inj (Except.ok.inj hpair)
  unfold LongHashtable.got
  rw [hget]
  exact congrArg Except.ok (Hashtable.Answer.value.inj hanswer)

/-- The other keys lead where they led before. -/
theorem Maps.got_eq {lht lht' : LongHashtable M V} {m m' : KeyedMap keys (Option V)}
    (h : Maps lht m) (h' : Maps lht' m') (hpolicy : lht'.policy = lht.policy) {j : BitVec 64}
    (hfind : m'.find (mask j) = m.find (mask j)) (mem : M) :
    LongHashtable.got mem lht' j = LongHashtable.got mem lht j := by
  rw [h.got, h'.got, hpolicy, hfind]

theorem Maps.put {lht : LongHashtable M V} {m : KeyedMap keys (Option V)} (h : Maps lht m) (mem : M)
    (k : BitVec 64) (v : Option V) : ∃ n lht', lhtPut mem lht k v = .ok (n, lht') ∧
      (∀ mem' j, mask j ≠ mask k → LongHashtable.got mem' lht' j = LongHashtable.got mem' lht j) ∧
      (n ≠ 2 → ∀ mem', lht.entryExpired.any (· mem' v) = false →
        LongHashtable.got mem' lht' k = .ok v) := by
  obtain ⟨lht', hrun, hpolicy, hmaps⟩ := h.perform mem (.put k v)
  obtain ⟨⟨n, lht₁⟩, hput, hpair⟩ := Exec.bind_eq_ok.mp hrun
  obtain ⟨hanswer, rfl⟩ := Prod.mk.inj (Except.ok.inj hpair)
  have hcases : (.status n, m) = (Call.put k v).toCall.meaning lht.policy mem m ∧ n = 2 ∨
      ((Call.put k v).toCall.meaning lht.policy mem m).2 = m.put (mask k) v := by
    revert hanswer
    unfold Call.toCall Hashtable.Call.meaning
    dsimp only
    intro hanswer
    cases hfind : m.find (mask k) with
    | none => exact .inr rfl
    | some e =>
      rw [hfind] at hanswer
      dsimp only at hanswer ⊢
      split_ifs at hanswer ⊢
      · cases hanswer
        exact .inl ⟨rfl, rfl⟩
      · exact .inr rfl
  refine ⟨n, lht₁, hput, ?_⟩
  rcases hcases with ⟨hmeaning, htwo⟩ | hmeaning
  · rw [← hmeaning] at hmaps
    exact ⟨fun mem' j _ => h.got_eq hmaps hpolicy rfl mem', fun hne => absurd htwo hne⟩
  · rw [hmeaning] at hmaps
    constructor
    · intro mem' j hne
      have hnot : ¬keys.r (mask k) (mask j) := fun heq => hne (keys_iff.mp heq).symm
      exact h.got_eq hmaps hpolicy (KeyedMap.find_put_of_not_rel hnot) mem'
    · intro _ mem' hlive
      rw [hmaps.got, hpolicy, KeyedMap.find_put_of_rel (keys.refl _)]
      unfold valueOf
      rw [Option.bind_some]
      exact congrArg Except.ok (if_neg (by
        dsimp only [policy]
        rw [hlive]
        exact Bool.false_ne_true))

theorem Maps.remove {lht : LongHashtable M V} {m : KeyedMap keys (Option V)} (h : Maps lht m)
    (mem : M) (k : BitVec 64) : ∃ n lht', lhtRemove lht k = .ok (n, lht') ∧
      ∀ mem' j, mask j ≠ mask k → LongHashtable.got mem' lht' j = LongHashtable.got mem' lht j := by
  obtain ⟨lht', hrun, hpolicy, hmaps⟩ := h.perform mem (.remove k)
  obtain ⟨⟨n, lht₁⟩, hremove, hpair⟩ := Exec.bind_eq_ok.mp hrun
  obtain ⟨-, rfl⟩ := Prod.mk.inj (Except.ok.inj hpair)
  refine ⟨n, lht₁, hremove, fun mem' j hne => ?_⟩
  have hnot : ¬keys.r (mask k) (mask j) := fun heq => hne (keys_iff.mp heq).symm
  have hfind : ((Call.remove k : Call V).toCall.meaning lht.policy mem m).2.find (mask j) =
      m.find (mask j) := by
    unfold Call.toCall Hashtable.Call.meaning
    dsimp only
    cases m.find (mask k) with
    | none => rfl
    | some e => exact KeyedMap.find_erase_of_not_rel hnot
  exact h.got_eq hmaps hpolicy hfind mem'

end LongHashtable
end ZoweCommon
