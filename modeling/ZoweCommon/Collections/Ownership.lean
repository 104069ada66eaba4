import Mathlib.Algebra.Order.Group.Multiset
import Mathlib.Data.Multiset.Filter
import Mathlib.Tactic.Abel
import ZoweCommon.Collections.HashtableMap

/-! Who owns the keys and the values of a table: each that a put hands over is handed on once,
to a reclaimer, to the destroyer of a prune or to the caller of a removing get. -/
namespace ZoweCommon

open Linked

variable {M K V : Type}

namespace Reclaim

def key? : Reclaim K V → Option (Word K)
  | .key w => some w
  | _ => none

def value? : Reclaim K V → Option (Option V)
  | .key _ => none
  | .value v => some v
  | .destroy v => some v

end Reclaim

namespace Hashtable

/-- One call of a run, with the table before it and after it. -/
structure Step (M K V : Type) where
  mem : M
  before : Hashtable M K V
  call : Call K V
  answer : Answer V
  after : Hashtable M K V

section Runs

variable [DecidableEq K] [Pointer K]

/-- A run, call by call, and the table it ends with. -/
def steps (ht : Hashtable M K V) : List (M × Call K V) → Exec (List (Step M K V) × Hashtable M K V)
  | [] => return ([], ht)
  | (mem, call) :: calls => do
    let (answer, after) ← ht.perform mem call
    let (rest, last) ← after.steps calls
    return (⟨mem, ht, call, answer, after⟩ :: rest, last)

/-- The key and the value that a put hands over, unless it is refused. -/
def Step.accepted (s : Step M K V) : List (K × Option V) :=
  match s.call, s.answer with
  | .put key value, .status n => if n = 2 then [] else [(key, value)]
  | _, _ => []

/-- The value that a get takes off the table and returns. -/
def Step.handedOut (s : Step M K V) : List (Option V) :=
  match s.call with
  | .get key =>
    match s.before.walkFrom s.mem (s.before.place s.mem key) key with
    | .ok (_, some entry) =>
      let value := (s.before.heap entry).value
      if s.before.entryExpired.any (· s.mem value) then []
      else if s.before.removeEntry.any (· s.mem value) then [value] else []
    | _ => []
  | _ => []

end Runs

def OnChain (ht : Hashtable M K V) (e : K × Option V) : Prop :=
  ∃ i as, Chain ht.next (ht.backbone i) as ∧ ∃ a ∈ as, ht.entryAt a = some e

/-- A prune without a destroyer finds nothing to remove. -/
def Step.Spares (s : Step M K V) : Prop :=
  ∀ matcher, s.call = .prune matcher false → ∀ e, s.before.OnChain e → matcher e.1 e.2 = false

variable {ht ht' : Hashtable M K V} {chains : ℕ → List ℕ} {free : List ℕ}

theorem Chained.onChain_iff (h : Chained ht chains free) {e : K × Option V} :
    ht.OnChain e ↔ e ∈ ht.entries chains := by
  simp only [OnChain, entries, slotEntries, List.mem_flatMap, List.mem_range, List.mem_filterMap]
  constructor
  · rintro ⟨i, as, hc, a, ha, he⟩
    rw [hc.unique (h.chain i)] at ha
    exact ⟨i, h.slots i a ha, a, ha, he⟩
  · rintro ⟨i, -, a, ha, he⟩
    exact ⟨i, chains i, h.chain i, a, ha, he⟩

/-! What the operations do to the entries, counted with their multiplicity -/

/-- Lists that agree but for one slot. -/
theorem flatMap_range_split {γ : Type} {f g : ℕ → List γ} {n i : ℕ} (hi : i < n)
    (hother : ∀ j ≠ i, g j = f j) :
    ∃ rest : Multiset γ, (((List.range n).flatMap f : List γ) : Multiset γ) = ↑(f i) + rest ∧
      (((List.range n).flatMap g : List γ) : Multiset γ) = ↑(g i) + rest := by
  have hperm : (List.range n).Perm (i :: (List.range n).erase i) :=
    List.perm_cons_erase (List.mem_range.mpr hi)
  have hrest : ((List.range n).erase i).flatMap g = ((List.range n).erase i).flatMap f := by
    refine List.flatMap_congr fun j hj => hother j ?_
    rintro rfl
    exact List.nodup_range.not_mem_erase hj
  refine ⟨↑(((List.range n).erase i).flatMap f), ?_, ?_⟩
  · rw [Multiset.coe_add, Multiset.coe_eq_coe]
    exact hperm.flatMap_right f
  · rw [Multiset.coe_add, Multiset.coe_eq_coe, ← hrest]
    exact hperm.flatMap_right g

theorem Chained.entries_detach (h : Chained ht chains free) {i a : ℕ} {pre post : List ℕ}
    {e : K × Option V} (hc : chains i = pre ++ a :: post) (he : ht.entryAt a = some e)
    (log : List (Reclaim K V)) :
    (ht.entries chains : Multiset (K × Option V)) =
      e ::ₘ ↑(entries { ht.detach i pre.getLast? a with reclaimed := log }
        (Function.update chains i (pre ++ post))) := by
  have ha : a ∈ chains i := by
    rw [hc]
    simp
  have hlive : ∀ j, ∀ b ∈ Function.update chains i (pre ++ post) j, b ≠ a :=
    fun j b hb => ((h.mem_detach hc).mp hb).2
  have hslot : ∀ j, slotEntries { ht.detach i pre.getLast? a with reclaimed := log }
      (Function.update chains i (pre ++ post)) j =
      (Function.update chains i (pre ++ post) j).filterMap ht.entryAt :=
    fun j => filterMap_entryAt_detach ht i _ (fun hmem => hlive j a hmem rfl) log
  have hsize : (ht.detach i pre.getLast? a).backboneSize = ht.backboneSize :=
    (sameSetup_detach ht i pre.getLast? a log).backboneSize
  obtain ⟨rest, hbefore, hafter⟩ := flatMap_range_split (f := ht.slotEntries chains)
    (g := slotEntries { ht.detach i pre.getLast? a with reclaimed := log }
      (Function.update chains i (pre ++ post))) (h.slots i a ha) fun j hj => by
        rw [hslot, Function.update_of_ne hj]
        rfl
  have hentries : entries { ht.detach i pre.getLast? a with reclaimed := log }
      (Function.update chains i (pre ++ post)) = (List.range ht.backboneSize).flatMap
        (slotEntries { ht.detach i pre.getLast? a with reclaimed := log }
          (Function.update chains i (pre ++ post))) :=
    congrArg (fun n => (List.range n).flatMap _) hsize
  rw [hentries, hafter]
  unfold entries
  rw [hbefore, hslot i, Function.update_self, slotEntries, hc, ← Multiset.cons_add]
  congr 1
  rw [Multiset.cons_coe, Multiset.coe_eq_coe, List.filterMap_append, List.filterMap_append,
    List.filterMap_cons_some he]
  exact List.perm_middle

theorem Chained.entries_overwrite (h : Chained ht chains free) {i a : ℕ} {e : K × Option V}
    (ha : a ∈ chains i) (he : ht.entryAt a = some e) (key : K) (value : Option V)
    (log : List (Reclaim K V)) :
    ∃ rest : Multiset (K × Option V), (ht.entries chains : Multiset (K × Option V)) = e ::ₘ rest ∧
      (entries { ht.overwrite a key value with reclaimed := log } chains :
        Multiset (K × Option V)) = (key, value) ::ₘ rest := by
  obtain ⟨pre, post, hc⟩ := List.append_of_mem ha
  have hnodup := (h.chain i).nodup
  rw [hc] at hnodup
  have hapart : a ∉ pre ∧ a ∉ post := by
    obtain ⟨-, hpost, hdisj⟩ := List.nodup_append.mp hnodup
    exact ⟨fun hmem => hdisj a hmem a List.mem_cons_self rfl, (List.nodup_cons.mp hpost).1⟩
  have hsame : ∀ bs : List ℕ, a ∉ bs →
      bs.filterMap (entryAt { ht.overwrite a key value with reclaimed := log }) =
        bs.filterMap ht.entryAt := by
    intro bs hbs
    refine List.filterMap_congr fun b hb => (entryAt_overwrite a key value b).trans (if_neg ?_)
    rintro rfl
    exact hbs hb
  have hnew : entryAt { ht.overwrite a key value with reclaimed := log } a = some (key, value) :=
    (entryAt_overwrite a key value a).trans (if_pos rfl)
  obtain ⟨rest, hbefore, hafter⟩ := flatMap_range_split (f := ht.slotEntries chains)
    (g := slotEntries { ht.overwrite a key value with reclaimed := log } chains) (h.slots i a ha)
    fun j hj => hsame _ fun hmem => hj (h.apart j i a hmem ha)
  refine ⟨↑(pre.filterMap ht.entryAt ++ post.filterMap ht.entryAt) + rest, ?_, ?_⟩
  · unfold entries
    rw [hbefore, slotEntries, hc, ← Multiset.cons_add, List.filterMap_append,
      List.filterMap_cons_some he]
    congr 1
    rw [Multiset.cons_coe, Multiset.coe_eq_coe]
    exact List.perm_middle
  · have hentries : entries { ht.overwrite a key value with reclaimed := log } chains =
        (List.range ht.backboneSize).flatMap
          (slotEntries { ht.overwrite a key value with reclaimed := log } chains) := rfl
    rw [hentries, hafter, slotEntries, hc, ← Multiset.cons_add, List.filterMap_append,
      List.filterMap_cons_some hnew, hsame pre hapart.1, hsame post hapart.2]
    congr 1
    rw [Multiset.cons_coe, Multiset.coe_eq_coe]
    exact List.perm_middle

theorem entries_pushEntry {mgr : FixedBlockMgr} {i a : ℕ} (hi : i < ht.backboneSize)
    (hnew : ∀ i, a ∉ chains i) (key : K) (value : Option V) :
    ((ht.pushEntry mgr i a key value).entries (Function.update chains i (a :: chains i)) :
      Multiset (K × Option V)) = (key, value) ::ₘ ↑(ht.entries chains) := by
  have hsame : ∀ j, (chains j).filterMap (ht.pushEntry mgr i a key value).entryAt =
      (chains j).filterMap ht.entryAt := by
    intro j
    refine List.filterMap_congr fun b hb => (entryAt_pushEntry ..).trans (if_neg ?_)
    rintro rfl
    exact hnew j hb
  obtain ⟨rest, hbefore, hafter⟩ := flatMap_range_split (f := ht.slotEntries chains)
    (g := (ht.pushEntry mgr i a key value).slotEntries (Function.update chains i (a :: chains i)))
    hi fun j hj => by
      unfold slotEntries
      rw [Function.update_of_ne hj, hsame]
  have hfirst : (ht.pushEntry mgr i a key value).entryAt a = some (key, value) :=
    (entryAt_pushEntry ..).trans (if_pos rfl)
  have hentries : (ht.pushEntry mgr i a key value).entries (Function.update chains i (a :: chains i)) =
      (List.range ht.backboneSize).flatMap ((ht.pushEntry mgr i a key value).slotEntries
        (Function.update chains i (a :: chains i))) := rfl
  rw [hentries, hafter]
  unfold entries
  rw [hbefore, slotEntries, Function.update_self, List.filterMap_cons_some hfirst, hsame,
    ← Multiset.cons_add]
  rfl

/-! The books -/

@[simp] theorem filterMap_key?_keyLog (h : ht.keyReclaimer = true) (w : Word K) :
    (ht.keyLog w).filterMap Reclaim.key? = [w] := by
  unfold keyLog
  rw [if_pos h]
  rfl

@[simp] theorem filterMap_key?_valueLog (v : Option V) :
    (ht.valueLog v).filterMap Reclaim.key? = [] := by
  unfold valueLog
  split_ifs <;> rfl

@[simp] theorem filterMap_value?_keyLog (w : Word K) :
    (ht.keyLog w).filterMap Reclaim.value? = [] := by
  unfold keyLog
  split_ifs <;> rfl

@[simp] theorem filterMap_value?_valueLog (h : ht.valueReclaimer = true) (v : Option V) :
    (ht.valueLog v).filterMap Reclaim.value? = [v] := by
  unfold valueLog
  rw [if_pos h]
  rfl

@[simp] theorem filterMap_key?_destroyLog (destroyer : Bool) (v : Option V) :
    (destroyLog destroyer v : List (Reclaim K V)).filterMap Reclaim.key? = [] := by
  unfold destroyLog
  split_ifs <;> rfl

@[simp] theorem filterMap_value?_destroyLog (destroyer : Bool) (v : Option V) :
    (destroyLog destroyer v : List (Reclaim K V)).filterMap Reclaim.value? =
      if destroyer then [v] else [] := by
  unfold destroyLog
  split_ifs <;> rfl

/-- What the table holds and takes over is what it hands on, loses and still holds. -/
structure Balanced (ht : Hashtable M K V) (log : List (Reclaim K V)) (accepted : List (K × Option V))
    (out lost : List (Option V)) (before after : Multiset (K × Option V)) : Prop where
  keys : ht.keyReclaimer = true →
    (↑(log.filterMap Reclaim.key?) : Multiset (Word K)) + after.map (fun e => Word.key e.1) =
      ↑(accepted.map fun e => Word.key e.1) + before.map fun e => Word.key e.1
  values : ht.valueReclaimer = true →
    (↑(log.filterMap Reclaim.value?) : Multiset (Option V)) + ↑out + ↑lost + after.map Prod.snd =
      ↑(accepted.map Prod.snd) + before.map Prod.snd

namespace Balanced

variable {log log' : List (Reclaim K V)} {accepted accepted' : List (K × Option V)}
  {out out' lost lost' : List (Option V)} {before between after rest : Multiset (K × Option V)}

theorem refl (ht : Hashtable M K V) (before : Multiset (K × Option V)) :
    Balanced ht [] [] [] [] before before := by
  constructor <;> simp

theorem trans (h : Balanced ht log accepted out lost before between)
    (hk : ht'.keyReclaimer = ht.keyReclaimer) (hv : ht'.valueReclaimer = ht.valueReclaimer)
    (h' : Balanced ht' log' accepted' out' lost' between after) :
    Balanced ht (log ++ log') (accepted ++ accepted') (out ++ out') (lost ++ lost') before after := by
  constructor
  · intro hkey
    have hfirst := h.keys hkey
    have hsecond := h'.keys (hk.trans hkey)
    apply add_right_cancel (b := between.map fun e => Word.key e.1)
    simp only [List.filterMap_append, List.map_append, ← Multiset.coe_add]
    calc _ = (↑(log.filterMap Reclaim.key?) + between.map fun e => Word.key e.1) +
          (↑(log'.filterMap Reclaim.key?) + after.map fun e => Word.key e.1) := by abel
      _ = _ := by
        rw [hfirst, hsecond]
        abel
  · intro hvalue
    have hfirst := h.values hvalue
    have hsecond := h'.values (hv.trans hvalue)
    apply add_right_cancel (b := between.map Prod.snd)
    simp only [List.filterMap_append, List.map_append, ← Multiset.coe_add]
    calc _ = (↑(log.filterMap Reclaim.value?) + ↑out + ↑lost + between.map Prod.snd) +
          (↑(log'.filterMap Reclaim.value?) + ↑out' + ↑lost' + after.map Prod.snd) := by abel
      _ = _ := by
        rw [hfirst, hsecond]
        abel

theorem reclaim (ht : Hashtable M K V) (e : K × Option V) (rest : Multiset (K × Option V)) :
    Balanced ht (ht.keyLog (.key e.1) ++ ht.valueLog e.2) [] [] [] (e ::ₘ rest) rest := by
  constructor
  · intro hkey
    simp [List.filterMap_append, hkey]
  · intro hvalue
    simp [List.filterMap_append, hvalue]

theorem accept (ht : Hashtable M K V) (e : K × Option V) (rest : Multiset (K × Option V)) :
    Balanced ht [] [e] [] [] rest (e ::ₘ rest) := by
  constructor <;> intro h <;> simp

/-- An entry makes room for another. -/
theorem replace (ht : Hashtable M K V) (e f : K × Option V) (rest : Multiset (K × Option V)) :
    Balanced ht (ht.keyLog (.key e.1) ++ ht.valueLog e.2) [f] [] [] (e ::ₘ rest) (f ::ₘ rest) := by
  have hboth := (reclaim ht e rest).trans rfl rfl (accept ht f rest)
  rwa [List.append_nil] at hboth

/-- An entry's key is reclaimed and its value returned. -/
theorem handOut (ht : Hashtable M K V) (e : K × Option V) (rest : Multiset (K × Option V)) :
    Balanced ht (ht.keyLog (.key e.1)) [] [e.2] [] (e ::ₘ rest) rest := by
  constructor
  · intro hkey
    simp [hkey]
  · intro hvalue
    simp

/-- A prune without a destroyer loses the values it finds. -/
theorem prune (ht : Hashtable M K V) (matcher : K → Option V → Bool) (destroyer : Bool)
    (l : List (K × Option V)) :
    Balanced ht ((l.filter fun e => matcher e.1 e.2).flatMap (ht.pruneLog destroyer)) [] []
      (if destroyer then [] else (l.filter fun e => matcher e.1 e.2).map Prod.snd) ↑l
      ↑(l.filter fun e => !matcher e.1 e.2) := by
  have hsplit : (l : Multiset (K × Option V)) = ↑(l.filter fun e => matcher e.1 e.2) +
      ↑(l.filter fun e => !matcher e.1 e.2) := by
    rw [Multiset.coe_add, Multiset.coe_eq_coe]
    exact (List.filter_append_perm (fun e => matcher e.1 e.2) l).symm
  rw [hsplit]
  generalize l.filter (fun e => matcher e.1 e.2) = found
  generalize (↑(l.filter fun e => !matcher e.1 e.2) : Multiset (K × Option V)) = rest
  constructor
  · intro hkey
    have hlog : (found.flatMap (ht.pruneLog destroyer)).filterMap Reclaim.key? =
        found.map fun e => Word.key e.1 := by
      unfold pruneLog
      induction found with
      | nil => rfl
      | cons e found ih => simp [List.flatMap_cons, List.filterMap_append, hkey, ih]
    rw [hlog]
    simp
  · intro hvalue
    have hlog : (found.flatMap (ht.pruneLog destroyer)).filterMap Reclaim.value? =
        if destroyer then found.map Prod.snd else [] := by
      unfold pruneLog
      induction found with
      | nil => simp
      | cons e found ih =>
        rw [List.flatMap_cons, List.filterMap_append, ih]
        cases destroyer <;> simp [List.filterMap_append]
    rw [hlog]
    cases destroyer <;> simp

end Balanced

section Calls

variable [DecidableEq K] [Pointer K]

omit [DecidableEq K] [Pointer K] in
theorem Chained.htDequeue_spec (h : Chained ht chains free) {i a : ℕ} {pre post : List ℕ}
    {e : K × Option V} (hc : chains i = pre ++ a :: post) (he : ht.entryAt a = some e)
    (valueReclaim : Bool) :
    ∃ chains' free', SameSetup ht (htDequeue ht i pre.getLast? a valueReclaim) ∧
      Logged ht (htDequeue ht i pre.getLast? a valueReclaim)
        (ht.keyLog (.key e.1) ++ if valueReclaim then ht.valueLog e.2 else []) ∧
      Chained (htDequeue ht i pre.getLast? a valueReclaim) chains' free' ∧
      (ht.entries chains : Multiset (K × Option V)) =
        e ::ₘ ↑((htDequeue ht i pre.getLast? a valueReclaim).entries chains') := by
  obtain ⟨hkey, hvalue⟩ := entryAt_eq_some.mp he
  rw [htDequeue_eq, hkey, hvalue]
  exact ⟨_, _, sameSetup_detach _ _ _ _ _, logged_detach _ _ _ _ _, h.detach hc _,
    h.entries_detach hc he _⟩

/-- What a call on the table is to show: it returns, and the books balance. -/
structure Booked (mem : M) (ht : Hashtable M K V) (chains : ℕ → List ℕ) (call : Call K V)
    (answer : Answer V) (ht' : Hashtable M K V) (chains' : ℕ → List ℕ) (free' : List ℕ)
    (log : List (Reclaim K V)) (lost : List (Option V)) : Prop where
  run : ht.perform mem call = .ok (answer, ht')
  setup : SameSetup ht ht'
  logged : Logged ht ht' log
  chained : Chained ht' chains' free'
  balanced : Balanced ht log (Step.accepted ⟨mem, ht, call, answer, ht'⟩)
    (Step.handedOut ⟨mem, ht, call, answer, ht'⟩) lost ↑(ht.entries chains) ↑(ht'.entries chains')
  spares : lost = [] ↔ Step.Spares ⟨mem, ht, call, answer, ht'⟩

theorem Chained.perform_put (h : Chained ht chains free) (hpos : 0 < ht.backboneSize) (mem : M)
    (key : K) (value : Option V) : ∃ answer ht' chains' free' log lost,
      Booked mem ht chains (.put key value) answer ht' chains' free' log lost := by
  have hspares : ∀ answer ht', [] = ([] : List (Option V)) ↔
      Step.Spares ⟨mem, ht, .put key value, answer, ht'⟩ := by
    intro answer ht'
    simp [Step.Spares]
  rcases h.walkFrom_spec mem (ht.place mem key) key with
    ⟨pre, a, post, e, hc, he, -, hwalk⟩ | ⟨-, q, hwalk⟩
  · have ha : a ∈ chains (ht.place mem key) := by
      rw [hc]
      simp
    obtain ⟨hk, hv⟩ := entryAt_eq_some.mp he
    by_cases hkeep : ht.keepEntry.any (· mem e.2) = true
    · have hput : htPut mem ht key value = .ok (2, ht) := by
        simp only [htPut, htPut2, hwalk, Exec.ok_bind, hv, if_pos hkeep]
        rfl
      refine ⟨.status 2, ht, chains, free, [], [], ?_, SameSetup.refl ht, Logged.refl ht, h,
        Balanced.refl ht _, hspares _ _⟩
      simp only [Hashtable.perform, hput, Exec.ok_bind]
      rfl
    · let log := ht.keyLog (.key e.1) ++ ht.valueLog e.2
      let ht' := { ht.overwrite a key value with reclaimed := ht.reclaimed ++ log }
      have hput : htPut mem ht key value = .ok (1, ht') := by
        simp only [htPut, htPut2, hwalk, Exec.ok_bind, hv, if_neg hkeep, reclaimKey_eq, hk,
          reclaimValue_eq, List.append_assoc]
        rfl
      obtain ⟨rest, hbefore, hafter⟩ := h.entries_overwrite ha he key value (ht.reclaimed ++ log)
      refine ⟨.status 1, ht', chains, free, log, [], ?_, ⟨rfl, rfl, rfl, rfl, rfl, rfl⟩,
        ⟨rfl, rfl, rfl⟩, h.overwrite ha key value _, ?_, hspares _ _⟩
      · simp only [Hashtable.perform, hput, Exec.ok_bind]
        rfl
      · rw [hbefore, hafter]
        exact Balanced.replace ht e (key, value) rest
  · obtain ⟨a, mgr, free', halloc, hwf, hfc, hafree, hsub, hnew, hblocks⟩ := h.fbMgrAlloc_spec
    have hlt : ht.place mem key < ht.backboneSize := Nat.mod_lt _ hpos
    let ht' := ht.pushEntry mgr (ht.place mem key) a key value
    have hput : htPut mem ht key value = .ok (0, ht') := by
      simp [htPut, htPut2, hwalk, halloc, Hashtable.pushEntry, ht']
    refine ⟨.status 0, ht', _, free', [], [], ?_, ⟨rfl, rfl, rfl, rfl, rfl, rfl⟩,
      ⟨rfl, rfl, (List.append_nil _).symm⟩,
      h.pushEntry hlt hwf hfc hafree hsub hnew hblocks key value, ?_, hspares _ _⟩
    · simp only [Hashtable.perform, hput, Exec.ok_bind]
      rfl
    · rw [entries_pushEntry hlt hnew]
      exact Balanced.accept ht (key, value) _

theorem Chained.perform_get (h : Chained ht chains free) (mem : M) (key : K) :
    ∃ answer ht' chains' free' log lost,
      Booked mem ht chains (.get key) answer ht' chains' free' log lost := by
  have hspares : ∀ answer ht', [] = ([] : List (Option V)) ↔
      Step.Spares ⟨mem, ht, .get key, answer, ht'⟩ := by
    intro answer ht'
    simp [Step.Spares]
  rcases h.walkFrom_spec mem (ht.place mem key) key with
    ⟨pre, a, post, e, hc, he, -, hwalk⟩ | ⟨-, q, hwalk⟩
  · obtain ⟨-, hv⟩ := entryAt_eq_some.mp he
    by_cases hexp : ht.entryExpired.any (· mem e.2) = true
    · obtain ⟨chains', free', hset, hlogged, hchained, hentries⟩ := h.htDequeue_spec hc he true
      refine ⟨.value none, _, chains', free', _, [], ?_, hset, hlogged, hchained, ?_, hspares _ _⟩
      · simp only [Hashtable.perform, htGet, hwalk, Exec.ok_bind, hv, if_pos hexp]
        rfl
      · have hout : ∀ answer ht', Step.handedOut ⟨mem, ht, .get key, answer, ht'⟩ = [] := by
          intro answer ht'
          simp only [Step.handedOut, hwalk, hv, if_pos hexp]
        rw [hentries, hout]
        exact Balanced.reclaim ht e _
    · by_cases hrem : ht.removeEntry.any (· mem e.2) = true
      · obtain ⟨chains', free', hset, hlogged, hchained, hentries⟩ := h.htDequeue_spec hc he false
        refine ⟨.value e.2, _, chains', free', _, [], ?_, hset, hlogged, hchained, ?_, hspares _ _⟩
        · simp only [Hashtable.perform, htGet, hwalk, Exec.ok_bind, hv, if_neg hexp, if_pos hrem]
          rfl
        · have hout : ∀ answer ht', Step.handedOut ⟨mem, ht, .get key, answer, ht'⟩ = [e.2] := by
            intro answer ht'
            simp only [Step.handedOut, hwalk, hv, if_neg hexp, if_pos hrem]
          rw [hentries, hout, if_neg Bool.false_ne_true, List.append_nil]
          exact Balanced.handOut ht e _
      · refine ⟨.value e.2, ht, chains, free, [], [], ?_, SameSetup.refl ht, Logged.refl ht, h, ?_,
          hspares _ _⟩
        · simp only [Hashtable.perform, htGet, hwalk, Exec.ok_bind, hv, if_neg hexp, if_neg hrem]
          rfl
        · have hout : ∀ answer ht', Step.handedOut ⟨mem, ht, .get key, answer, ht'⟩ = [] := by
            intro answer ht'
            simp only [Step.handedOut, hwalk, hv, if_neg hexp, if_neg hrem]
          rw [hout]
          exact Balanced.refl ht _
  · refine ⟨.value none, ht, chains, free, [], [], ?_, SameSetup.refl ht, Logged.refl ht, h, ?_,
      hspares _ _⟩
    · simp only [Hashtable.perform, htGet, hwalk, Exec.ok_bind]
      rfl
    · have hout : ∀ answer ht', Step.handedOut ⟨mem, ht, .get key, answer, ht'⟩ = [] := by
        intro answer ht'
        simp only [Step.handedOut, hwalk]
      rw [hout]
      exact Balanced.refl ht _

theorem Chained.perform_remove (h : Chained ht chains free) (mem : M) (key : K) :
    ∃ answer ht' chains' free' log lost,
      Booked mem ht chains (.remove key) answer ht' chains' free' log lost := by
  have hspares : ∀ answer ht', [] = ([] : List (Option V)) ↔
      Step.Spares ⟨mem, ht, .remove key, answer, ht'⟩ := by
    intro answer ht'
    simp [Step.Spares]
  rcases h.walkFrom_spec mem (ht.place mem key) key with
    ⟨pre, a, post, e, hc, he, -, hwalk⟩ | ⟨-, q, hwalk⟩
  · obtain ⟨chains', free', hset, hlogged, hchained, hentries⟩ := h.htDequeue_spec hc he true
    refine ⟨.status 1, _, chains', free', _, [], ?_, hset, hlogged, hchained, ?_, hspares _ _⟩
    · simp only [Hashtable.perform, htRemove, hwalk, Exec.ok_bind]
      rfl
    · rw [hentries]
      exact Balanced.reclaim ht e _
  · refine ⟨.status 0, ht, chains, free, [], [], ?_, SameSetup.refl ht, Logged.refl ht, h,
      Balanced.refl ht _, hspares _ _⟩
    simp only [Hashtable.perform, htRemove, hwalk, Exec.ok_bind]
    rfl

theorem Chained.perform_prune (h : Chained ht chains free) (mem : M) (matcher : K → Option V → Bool)
    (destroyer : Bool) : ∃ answer ht' chains' free' log lost,
      Booked mem ht chains (.prune matcher destroyer) answer ht' chains' free' log lost := by
  obtain ⟨ht', chains', free', hrun, hset, hlogged, hchained, hslot⟩ :=
    h.htPrune_spec matcher destroyer
  have hentries : ht'.entries chains' = (ht.entries chains).filter fun e => !matcher e.1 e.2 := by
    unfold entries
    rw [hset.backboneSize, List.filter_flatMap]
    exact List.flatMap_congr fun i _ => hslot i
  refine ⟨.status ((ht.entries chains).countP fun e => matcher e.1 e.2), ht', chains', free', _,
    if destroyer then [] else ((ht.entries chains).filter fun e => matcher e.1 e.2).map Prod.snd,
    ?_, hset, hlogged, hchained, ?_, ?_⟩
  · simp only [Hashtable.perform, hrun, Exec.ok_bind]
    rfl
  · rw [hentries]
    exact Balanced.prune ht matcher destroyer _
  · cases destroyer with
    | true => simp [Step.Spares]
    | false =>
      simp only [Step.Spares, h.onChain_iff, Call.prune.injEq, Bool.false_eq_true, if_false,
        List.map_eq_nil_iff, List.filter_eq_nil_iff, Bool.not_eq_true]
      constructor
      · rintro hnone _ ⟨rfl, -⟩
        exact hnone
      · intro hspares
        exact hspares matcher ⟨rfl, trivial⟩

theorem Chained.perform_count (h : Chained ht chains free) (mem : M) :
    ∃ answer ht' chains' free' log lost,
      Booked mem ht chains .count answer ht' chains' free' log lost := by
  let n := 0 + ((List.range' 0 ht.backboneSize).flatMap (ht.slotEntries chains)).length
  have hrun : htCount ht = .ok n := h.countSlots_spec
  refine ⟨.status n, ht, chains, free, [], [], ?_, SameSetup.refl ht, Logged.refl ht, h,
    Balanced.refl ht _, ?_⟩
  · simp only [Hashtable.perform, hrun, Exec.ok_bind]
    rfl
  · simp [Step.Spares]

/-- Whatever the call, it returns and the books balance. -/
theorem Chained.perform (h : Chained ht chains free) (hpos : 0 < ht.backboneSize) (mem : M)
    (call : Call K V) : ∃ answer ht' chains' free' log lost,
      Booked mem ht chains call answer ht' chains' free' log lost := by
  cases call with
  | put key value => exact h.perform_put hpos mem key value
  | get key => exact h.perform_get mem key
  | remove key => exact h.perform_remove mem key
  | prune matcher destroyer => exact h.perform_prune mem matcher destroyer
  | count => exact h.perform_count mem

/-- The books of a run: those of its calls, added up. -/
theorem Chained.steps (calls : List (M × Call K V)) : ∀ {ht : Hashtable M K V}
    {chains : ℕ → List ℕ} {free : List ℕ}, Chained ht chains free → 0 < ht.backboneSize →
    ∃ run last chains' free' log lost, ht.steps calls = .ok (run, last) ∧ SameSetup ht last ∧
      Logged ht last log ∧ Chained last chains' free' ∧
      Balanced ht log (run.flatMap Step.accepted) (run.flatMap Step.handedOut) lost
        ↑(ht.entries chains) ↑(last.entries chains') ∧
      (lost = [] ↔ ∀ s ∈ run, s.Spares) := by
  induction calls with
  | nil =>
    intro ht chains free h hpos
    exact ⟨[], ht, chains, free, [], [], rfl, SameSetup.refl ht, Logged.refl ht, h,
      Balanced.refl ht _, by simp⟩
  | cons c calls ih =>
    intro ht chains free h hpos
    obtain ⟨mem, call⟩ := c
    obtain ⟨answer, ht₁, chains₁, free₁, log₁, lost₁, hbook⟩ := h.perform hpos mem call
    have hpos₁ : 0 < ht₁.backboneSize := by
      rw [hbook.setup.backboneSize]
      exact hpos
    obtain ⟨run, last, chains₂, free₂, log₂, lost₂, hrun, hset, hlogged, hchained, hbalanced, hspares⟩ :=
      ih hbook.chained hpos₁
    refine ⟨⟨mem, ht, call, answer, ht₁⟩ :: run, last, chains₂, free₂, log₁ ++ log₂, lost₁ ++ lost₂, ?_,
      hbook.setup.trans hset, hbook.logged.trans hlogged, hchained, ?_, ?_⟩
    · simp [Hashtable.steps, hbook.run, hrun]
    · exact hbook.balanced.trans hbook.logged.keyReclaimer hbook.logged.valueReclaimer hbalanced
    · rw [List.append_eq_nil_iff, hbook.spares, hspares, List.forall_mem_cons]

/-- The calls `htDestroy` makes for an entry. -/
def reclaimLog (ht : Hashtable M K V) (e : K × Option V) : List (Reclaim K V) :=
  ht.keyLog (.key e.1) ++ ht.valueLog e.2

omit [DecidableEq K] [Pointer K] in
theorem destroyChain_spec {p : Option ℕ} {as : List ℕ} {fuel : ℕ} (log : List (Reclaim K V))
    (hc : Chain ht.next p as) (hlive : ∀ a ∈ as, ∃ e, ht.entryAt a = some e)
    (hf : as.length ≤ fuel) :
    destroyChain fuel p { ht with reclaimed := log } = .ok
      { ht with reclaimed := log ++ (as.filterMap ht.entryAt).flatMap ht.reclaimLog } := by
  induction as generalizing p fuel log with
  | nil =>
    cases chain_nil.mp hc
    cases fuel <;> simp [destroyChain]
  | cons a as ih =>
    obtain ⟨rfl, hc⟩ := hc
    obtain ⟨fuel, rfl⟩ : ∃ m, fuel = m + 1 :=
      Nat.exists_eq_succ_of_ne_zero fun h0 => by simp [h0] at hf
    obtain ⟨e, he⟩ := hlive a List.mem_cons_self
    obtain ⟨hk, hv⟩ := entryAt_eq_some.mp he
    have hfuel : as.length ≤ fuel := by simpa using hf
    have hrest := ih (log ++ ht.reclaimLog e) hc (fun b hb => hlive b (List.mem_cons_of_mem a hb)) hfuel
    rw [List.filterMap_cons_some he, List.flatMap_cons, ← List.append_assoc, ← hrest]
    unfold reclaimLog
    rw [← List.append_assoc]
    simp only [destroyChain, reclaimKey_eq, reclaimValue_eq, hk, hv]
    rfl

omit [DecidableEq K] [Pointer K] in
theorem Chained.destroySlots_spec (h : Chained ht chains free) {left i : ℕ}
    (log : List (Reclaim K V)) :
    destroySlots left i { ht with reclaimed := log } = .ok { ht with
      reclaimed := log ++ ((List.range' i left).flatMap (ht.slotEntries chains)).flatMap ht.reclaimLog } := by
  induction left generalizing i log with
  | zero => simp [destroySlots]
  | succ left ih =>
    have hchain := destroyChain_spec log (h.chain i) (h.live i) (h.length_le i)
    rw [List.range'_succ, List.flatMap_cons, List.flatMap_append, ← List.append_assoc, ← ih]
    simp only [destroySlots, hchain, Exec.ok_bind]
    rfl

omit [DecidableEq K] [Pointer K] in
theorem Chained.htDestroy_spec (h : Chained ht chains free) (hkey : ht.keyReclaimer = true) :
    htDestroy ht = .ok (ht.reclaimed ++ (ht.entries chains).flatMap ht.reclaimLog) := by
  have hslots : destroySlots ht.backboneSize 0 ht = _ := h.destroySlots_spec ht.reclaimed
  rw [← List.range_eq_range'] at hslots
  unfold htDestroy entries
  rw [hkey, Bool.true_or, if_pos rfl, hslots]
  rfl

omit [DecidableEq K] [Pointer K] in
/-- At the end every entry that is left is reclaimed. -/
theorem Balanced.destroy {log : List (Reclaim K V)} {accepted : List (K × Option V)}
    {out lost : List (Option V)} {before : Multiset (K × Option V)} {after : List (K × Option V)}
    (h : Balanced ht log accepted out lost before ↑after) :
    Balanced ht (log ++ after.flatMap ht.reclaimLog) accepted out lost before 0 := by
  have hall : Balanced ht (after.flatMap ht.reclaimLog) [] [] [] ↑after 0 := by
    clear h
    induction after with
    | nil => exact Balanced.refl ht 0
    | cons e after ih => exact (Balanced.reclaim ht e ↑after).trans rfl rfl ih
  have hboth := h.trans rfl rfl hall
  rwa [List.append_nil, List.append_nil, List.append_nil] at hboth

/-- Over the life of a table each key and each value that it accepts is handed on once, and a
put that is refused reclaims nothing. -/
structure Settled (run : List (Step M K V)) (log : List (Reclaim K V)) : Prop where
  keys : (log.filterMap Reclaim.key?).Perm ((run.flatMap Step.accepted).map fun e => .key e.1)
  values : (log.filterMap Reclaim.value? ++ run.flatMap Step.handedOut).Perm
    ((run.flatMap Step.accepted).map Prod.snd)
  refused : ∀ s ∈ run, ∀ key value, s.call = .put key value → s.answer = .status 2 →
    s.after.reclaimed = s.before.reclaimed

theorem htPut_refused {mem : M} {key : K} {value : Option V}
    (hrun : htPut mem ht key value = .ok (2, ht')) : ht' = ht := by
  unfold htPut htPut2 at hrun
  obtain ⟨⟨prev, entry⟩, -, hrest⟩ := Exec.bind_eq_ok.mp hrun
  cases entry with
  | none =>
    obtain ⟨⟨newEntry, mgr⟩, -, hrest⟩ := Exec.bind_eq_ok.mp hrest
    cases hrest
  | some entry =>
    dsimp only at hrest
    split_ifs at hrest
    · cases hrest
      rfl
    · cases hrest

theorem steps_refused {calls : List (M × Call K V)} : ∀ {ht last : Hashtable M K V}
    {run : List (Step M K V)}, ht.steps calls = .ok (run, last) →
    ∀ s ∈ run, ∀ key value, s.call = .put key value → s.answer = .status 2 → s.after = s.before := by
  induction calls with
  | nil =>
    intro ht last run hrun
    cases hrun
    simp
  | cons c calls ih =>
    intro ht last run hrun
    obtain ⟨mem, call⟩ := c
    obtain ⟨⟨answer, after⟩, hfirst, hrest⟩ := Exec.bind_eq_ok.mp hrun
    obtain ⟨⟨rest, last'⟩, hrest, hall⟩ := Exec.bind_eq_ok.mp hrest
    cases hall
    intro s hs key value hcall hanswer
    rcases List.mem_cons.mp hs with rfl | hs
    · cases hcall
      cases hanswer
      obtain ⟨⟨n, ht'⟩, hput, hpair⟩ := Exec.bind_eq_ok.mp hfirst
      cases hpair
      exact htPut_refused hput
    · exact ih hrest s hs key value hcall hanswer

omit [DecidableEq K] [Pointer K] in
/-- Books that close on an empty table settle exactly if nothing was lost. -/
theorem Balanced.values_perm_iff {log : List (Reclaim K V)} {accepted : List (K × Option V)}
    {out lost : List (Option V)} (h : Balanced ht log accepted out lost 0 0)
    (hvalue : ht.valueReclaimer = true) :
    (log.filterMap Reclaim.value? ++ out).Perm (accepted.map Prod.snd) ↔ lost = [] := by
  have hsum := h.values hvalue
  simp only [Multiset.map_zero, add_zero] at hsum
  rw [← Multiset.coe_eq_coe, ← hsum, ← Multiset.coe_add, ← Multiset.coe_eq_zero]
  exact ⟨fun heq => add_eq_left.mp heq.symm, fun hzero => by rw [hzero, add_zero]⟩

/-- A table with both reclaimers, from its creation to its destruction. -/
theorem settled_iff (hnew : Chained ht chains free)
    (hempty : ht.entries chains = []) (hpos : 0 < ht.backboneSize) (hkey : ht.keyReclaimer = true)
    (hvalue : ht.valueReclaimer = true) (hlog : ht.reclaimed = []) (calls : List (M × Call K V)) :
    ∃ run last log, ht.steps calls = .ok (run, last) ∧ htDestroy last = .ok log ∧
      (Settled run log ↔ ∀ s ∈ run, s.Spares) := by
  obtain ⟨run, last, chains', free', log, lost, hrun, -, hlogged, hchained, hbalanced, hspares⟩ :=
    Chained.steps calls hnew hpos
  have hflag : last.reclaimLog = ht.reclaimLog := by
    funext e
    unfold reclaimLog valueLog
    rw [hlogged.keyLog, hlogged.valueReclaimer]
  have hdestroy := hchained.htDestroy_spec (hlogged.keyReclaimer.trans hkey)
  rw [hlogged.reclaimed, hlog, List.nil_append, hflag] at hdestroy
  rw [hempty, Multiset.coe_nil] at hbalanced
  have hclosed := hbalanced.destroy
  have hrefused : ∀ s ∈ run, ∀ key value, s.call = .put key value → s.answer = .status 2 →
      s.after.reclaimed = s.before.reclaimed := by
    intro s hs key value hcall hanswer
    rw [steps_refused hrun s hs key value hcall hanswer]
  have hkeys := hclosed.keys hkey
  simp only [Multiset.map_zero, add_zero, Multiset.coe_eq_coe] at hkeys
  refine ⟨run, last, _, hrun, hdestroy, ?_⟩
  rw [← hspares, ← hclosed.values_perm_iff hvalue]
  exact ⟨Settled.values, fun hvalues => ⟨hkeys, hvalues, hrefused⟩⟩

end Calls

end Hashtable

end ZoweCommon
