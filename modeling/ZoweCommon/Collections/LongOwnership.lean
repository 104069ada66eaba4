import ZoweCommon.Collections.LongHashtable
import ZoweCommon.Collections.Ownership

/-! Who owns the values of a table with integer keys, and the two tables side by side. -/
namespace ZoweCommon

open Linked

variable {M K V : Type}

namespace LongHashtable

inductive Call (V : Type)
  | put (key : BitVec 64) (value : Option V)
  | get (key : BitVec 64)
  | remove (key : BitVec 64)

open Hashtable (Answer)

def perform (mem : M) (lht : LongHashtable M V) : Call V → Exec (Answer V × LongHashtable M V)
  | .put key value => do
    let (n, lht) ← lhtPut mem lht key value
    return (.status n, lht)
  | .get key => do
    let (v, lht) ← lhtGet mem lht key
    return (.value v, lht)
  | .remove key => do
    let (n, lht) ← lhtRemove lht key
    return (.status n, lht)

/-- One call of a run, with the table before it and after it. -/
structure Step (M V : Type) where
  mem : M
  before : LongHashtable M V
  call : Call V
  answer : Answer V
  after : LongHashtable M V

def steps (lht : LongHashtable M V) : List (M × Call V) → Exec (List (Step M V) × LongHashtable M V)
  | [] => return ([], lht)
  | (mem, call) :: calls => do
    let (answer, after) ← lht.perform mem call
    let (rest, last) ← after.steps calls
    return (⟨mem, lht, call, answer, after⟩ :: rest, last)

/-- The value that a put hands over, unless it is refused. -/
def Step.accepted (s : Step M V) : List (Option V) :=
  match s.call, s.answer with
  | .put _ value, .status n => if n = 2 then [] else [value]
  | _, _ => []

/-- The value that a get takes off the table and returns. -/
def Step.handedOut (s : Step M V) : List (Option V) :=
  match s.call with
  | .get key =>
    match s.before.walkFrom (s.before.place (mask key)) (mask key) with
    | .ok (_, some entry) =>
      let value := (s.before.heap entry).value
      if s.before.entryExpired.any (· s.mem value) then []
      else if s.before.removeEntry.any (· s.mem value) then [value] else []
    | _ => []
  | _ => []

/-- As for the other table, but that no reclaimer is called for the keys, which are integers. -/
structure Settled (run : List (Step M V)) (log : List (Reclaim (BitVec 64) V)) : Prop where
  values : (log.filterMap Reclaim.value? ++ run.flatMap Step.handedOut).Perm
    (run.flatMap Step.accepted)
  refused : ∀ s ∈ run, ∀ key value, s.call = .put key value → s.answer = .status 2 →
    s.after.reclaimed = s.before.reclaimed

/-! The same calls on the corresponding `Hashtable` -/

def Call.toCall : Call V → Hashtable.Call (BitVec 64) V
  | .put key value => .put (mask key) value
  | .get key => .get (mask key)
  | .remove key => .remove (mask key)

def Step.toStep (s : Step M V) : Hashtable.Step M (BitVec 64) V :=
  ⟨s.mem, s.before.toHashtable, s.call.toCall, s.answer, s.after.toHashtable⟩

variable {lht : LongHashtable M V}

theorem perform_toHashtable (hsize : lht.backboneSize < 2 ^ 31) (hpos : 0 < lht.backboneSize)
    (mem : M) (call : Call V) : lht.toHashtable.perform mem call.toCall =
      (lht.perform mem call).map fun r => (r.1, r.2.toHashtable) := by
  cases call with
  | put key value =>
    simp only [Call.toCall, Hashtable.perform, htPut_toHashtable hsize hpos, LongHashtable.perform]
    cases lhtPut mem lht key value <;> rfl
  | get key =>
    simp only [Call.toCall, Hashtable.perform, htGet_toHashtable hsize hpos, LongHashtable.perform]
    cases lhtGet mem lht key <;> rfl
  | remove key =>
    simp only [Call.toCall, Hashtable.perform, htRemove_toHashtable hsize hpos, LongHashtable.perform]
    cases lhtRemove lht key <;> rfl

theorem Step.accepted_toStep (s : Step M V) :
    s.toStep.accepted.map Prod.snd = s.accepted := by
  obtain ⟨mem, before, call, answer, after⟩ := s
  cases call with
  | put key value =>
    cases answer with
    | status n =>
      unfold Hashtable.Step.accepted Step.accepted
      simp only [Step.toStep, Call.toCall]
      split_ifs <;> rfl
    | value v => rfl
  | get key => rfl
  | remove key => rfl

theorem Step.handedOut_toStep (s : Step M V) (hsize : s.before.backboneSize < 2 ^ 31)
    (hpos : 0 < s.before.backboneSize) : s.toStep.handedOut = s.handedOut := by
  obtain ⟨mem, before, call, answer, after⟩ := s
  cases call with
  | put key value => rfl
  | get key =>
    unfold Hashtable.Step.handedOut Step.handedOut
    simp only [Step.toStep, Call.toCall, place_toHashtable hsize hpos, walkFrom_toHashtable]
    cases hwalk : before.walkFrom (before.place (mask key)) (mask key) with
    | error fault => rfl
    | ok found =>
      obtain ⟨prev, entry⟩ := found
      cases entry <;> rfl
  | remove key => rfl

theorem Step.spares_toStep (s : Step M V) : s.toStep.Spares := by
  obtain ⟨mem, before, call, answer, after⟩ := s
  intro matcher hcall
  cases call <;> cases hcall

theorem steps_toHashtable {calls : List (M × Call V)} : ∀ {lht : LongHashtable M V}
    {chains : ℕ → List ℕ} {free : List ℕ}, Hashtable.Chained lht.toHashtable chains free →
    lht.backboneSize < 2 ^ 31 → 0 < lht.backboneSize →
    ∃ run last, lht.steps calls = .ok (run, last) ∧
      lht.toHashtable.steps (calls.map fun c => (c.1, c.2.toCall)) =
        .ok (run.map Step.toStep, last.toHashtable) ∧
      ∀ s ∈ run, s.toStep.handedOut = s.handedOut := by
  induction calls with
  | nil =>
    intro lht chains free h hsize hpos
    exact ⟨[], lht, rfl, rfl, by simp⟩
  | cons c calls ih =>
    intro lht chains free h hsize hpos
    obtain ⟨mem, call⟩ := c
    obtain ⟨answer, ht₁, chains₁, free₁, log, lost, hbook⟩ := h.perform hpos mem call.toCall
    have hfirst := hbook.run
    rw [perform_toHashtable hsize hpos] at hfirst
    cases hperform : lht.perform mem call with
    | error fault =>
      rw [hperform] at hfirst
      cases hfirst
    | ok result =>
    obtain ⟨answer', lht₁⟩ := result
    rw [hperform] at hfirst
    cases hfirst
    have hsame : lht₁.backboneSize = lht.backboneSize := hbook.setup.backboneSize
    obtain ⟨run, last, hrun, hrun', hout⟩ :=
      ih hbook.chained (hsame ▸ hsize) (hsame ▸ hpos)
    refine ⟨⟨mem, lht, call, answer', lht₁⟩ :: run, last, ?_, ?_, ?_⟩
    · simp [LongHashtable.steps, hperform, hrun]
    · simp [Hashtable.steps, hbook.run, hrun', Step.toStep]
    · exact List.forall_mem_cons.mpr ⟨Step.handedOut_toStep _ hsize hpos, hout⟩

theorem lhtPut_refused {lht' : LongHashtable M V} {mem : M} {key : BitVec 64} {value : Option V}
    (hrun : lhtPut mem lht key value = .ok (2, lht')) : lht' = lht := by
  unfold lhtPut at hrun
  obtain ⟨⟨prev, entry⟩, -, hrest⟩ := Exec.bind_eq_ok.mp hrun
  cases entry with
  | none =>
    obtain ⟨⟨newEntry, mgr⟩, -, hrest⟩ := Exec.bind_eq_ok.mp hrest
    cases hrest
  | some entry =>
    dsimp only at hrest
    split_ifs at hrest
    · cases hrest
      rfl
    · cases hrest

theorem steps_refused {calls : List (M × Call V)} : ∀ {lht last : LongHashtable M V}
    {run : List (Step M V)}, lht.steps calls = .ok (run, last) →
    ∀ s ∈ run, ∀ key value, s.call = .put key value → s.answer = .status 2 → s.after = s.before := by
  induction calls with
  | nil =>
    intro lht last run hrun
    cases hrun
    simp
  | cons c calls ih =>
    intro lht last run hrun
    obtain ⟨mem, call⟩ := c
    obtain ⟨⟨answer, after⟩, hfirst, hrest⟩ := Exec.bind_eq_ok.mp hrun
    obtain ⟨⟨rest, last'⟩, hrest, hall⟩ := Exec.bind_eq_ok.mp hrest
    cases hall
    intro s hs key value hcall hanswer
    rcases List.mem_cons.mp hs with rfl | hs
    · cases hcall
      cases hanswer
      obtain ⟨⟨n, lht'⟩, hput, hpair⟩ := Exec.bind_eq_ok.mp hfirst
      cases hpair
      exact lhtPut_refused hput
    · exact ih hrest s hs key value hcall hanswer

/-- No entry is left just when no slot leads to one. -/
theorem entries_eq_nil_iff {chains : ℕ → List ℕ} {free : List ℕ}
    (h : Hashtable.Chained lht.toHashtable chains free) :
    lht.toHashtable.entries chains = [] ↔ ∀ i, lht.backbone i = none := by
  constructor
  · intro hnil i
    have hslot : lht.toHashtable.slotEntries chains i = [] := by
      by_cases hi : i < lht.backboneSize
      · exact List.flatMap_eq_nil_iff.mp hnil i (List.mem_range.mpr hi)
      · refine List.eq_nil_iff_forall_not_mem.mpr fun e he => hi ?_
        obtain ⟨a, ha, -⟩ := List.mem_filterMap.mp he
        exact h.slots i a ha
    have hlength := h.length_slotEntries i
    rw [hslot] at hlength
    have hchain := h.chain i
    rw [List.length_eq_zero_iff.mp hlength.symm] at hchain
    exact hchain
  · intro hnone
    refine List.flatMap_eq_nil_iff.mpr fun i _ => ?_
    have hchain := h.chain i
    have hstart : lht.toHashtable.backbone i = none := hnone i
    rw [hstart, chain_none_iff] at hchain
    unfold Hashtable.slotEntries
    rw [hchain]
    rfl

theorem settled_iff {chains : ℕ → List ℕ} {free : List ℕ}
    (hnew : Hashtable.Chained lht.toHashtable chains free) (hempty : ∀ i, lht.backbone i = none)
    (hsize : lht.backboneSize < 2 ^ 31) (hpos : 0 < lht.backboneSize)
    (hvalue : lht.valueReclaimer = true) (hlog : lht.reclaimed = []) (calls : List (M × Call V)) :
    ∃ run last, lht.steps calls = .ok (run, last) ∧
      (Settled run (lhtDestroy last) ↔ ∀ i, last.backbone i = none) := by
  obtain ⟨run, last, hrun, hrun', hout⟩ := steps_toHashtable hnew hsize hpos
  obtain ⟨_, _, chains', free', log, lost, hbooked, -, hlogged, hchained, hbalanced, hspares⟩ :=
    Hashtable.Chained.steps (calls.map fun c => (c.1, c.2.toCall)) hnew hpos
  rw [hrun'] at hbooked
  cases hbooked
  have hlost : lost = [] := by
    refine hspares.mpr fun s hs => ?_
    obtain ⟨s, -, rfl⟩ := List.mem_map.mp hs
    exact s.spares_toStep
  have haccepted : ((run.map Step.toStep).flatMap Hashtable.Step.accepted).map Prod.snd =
      run.flatMap Step.accepted := by
    rw [List.flatMap_map, List.map_flatMap]
    exact List.flatMap_congr fun s _ => s.accepted_toStep
  have hhanded : (run.map Step.toStep).flatMap Hashtable.Step.handedOut =
      run.flatMap Step.handedOut := by
    rw [List.flatMap_map]
    exact List.flatMap_congr hout
  have hdestroyed : lhtDestroy last = log := by
    have hall := hlogged.reclaimed
    change last.reclaimed = lht.reclaimed ++ log at hall
    rw [hlog, List.nil_append] at hall
    exact hall
  have hsum := hbalanced.values hvalue
  rw [hlost, haccepted, hhanded, (entries_eq_nil_iff hnew).mpr hempty] at hsum
  simp only [Multiset.coe_nil, Multiset.map_zero, add_zero] at hsum
  have hrefused : ∀ s ∈ run, ∀ key value, s.call = .put key value → s.answer = .status 2 →
      s.after.reclaimed = s.before.reclaimed := by
    intro s hs key value hcall hanswer
    rw [steps_refused hrun s hs key value hcall hanswer]
  have hiff : (log.filterMap Reclaim.value? ++ run.flatMap Step.handedOut).Perm
      (run.flatMap Step.accepted) ↔ last.toHashtable.entries chains' = [] := by
    rw [← Multiset.coe_eq_coe, ← hsum, ← Multiset.coe_add, eq_comm, add_eq_left,
      Multiset.map_eq_zero, Multiset.coe_eq_zero]
  refine ⟨run, last, hrun, ?_⟩
  rw [hdestroyed, ← entries_eq_nil_iff hchained, ← hiff]
  exact ⟨Settled.values, fun hvalues => ⟨hvalues, hrefused⟩⟩

end LongHashtable

/-- Everything accepted is handed on once: by a `Hashtable` if no prune without a destroyer
removes an entry, by a `LongHashtable` if no entry is left when it is destroyed. -/
theorem settled_create_iff [DecidableEq K] [Pointer K] (safeMalloc : ℕ → ℕ) (backboneSize : ℕ)
    (hash : Option (M → K → BitVec 32)) (compare : Option (M → K → K → Bool))
    (P : Hashtable.Policy M V) (calls : List (M × Hashtable.Call K V))
    (longCalls : List (M × LongHashtable.Call V)) (hpos : 0 < backboneSize)
    (hsize : backboneSize < 2 ^ 31)
    (hd : ∀ i j, i < j →
      safeMalloc i + FixedBlockMgr.extentSize HASHENTRY_SIZE 256 ≤ safeMalloc j ∨
      safeMalloc j + FixedBlockMgr.extentSize HASHENTRY_SIZE 256 ≤ safeMalloc i) :
    (∃ run last log, (htAlter (htCreate safeMalloc backboneSize hash compare true true)
        P.keepEntry P.entryExpired P.removeEntry).steps calls = .ok (run, last) ∧
      htDestroy last = .ok log ∧ (Hashtable.Settled run log ↔ ∀ s ∈ run, s.Spares)) ∧
    ∃ run last, (lhtAlter (lhtCreate safeMalloc backboneSize true)
        P.keepEntry P.entryExpired P.removeEntry).steps longCalls = .ok (run, last) ∧
      (LongHashtable.Settled run (lhtDestroy last) ↔ ∀ i, last.backbone i = none) := by
  constructor
  · have hnew : Hashtable.Chained (htAlter (htCreate safeMalloc backboneSize hash compare true true)
        P.keepEntry P.entryExpired P.removeEntry) (fun _ => []) [] :=
      Hashtable.chained_new (fun _ => rfl) rfl hd
    refine Hashtable.settled_iff hnew ?_ hpos rfl rfl rfl calls
    simp [Hashtable.entries, Hashtable.slotEntries]
  · have hnew : Hashtable.Chained (lhtAlter (lhtCreate safeMalloc backboneSize true)
        P.keepEntry P.entryExpired P.removeEntry).toHashtable (fun _ => []) [] :=
      Hashtable.chained_new (fun _ => rfl) rfl hd
    exact LongHashtable.settled_iff hnew (fun _ => rfl) hsize hpos rfl rfl longCalls

theorem settled_create_iff_replaced :
    let P : Hashtable.Policy Unit ℕ := ⟨none, none, some fun _ _ => true⟩
    let calls : List (Unit × Hashtable.Call (BitVec 64) ℕ) :=
      [((), .put 1 (some 5)), ((), .put 1 (some 6)), ((), .put 2 (some 7)), ((), .get 2)]
    let longCalls : List (Unit × LongHashtable.Call ℕ) :=
      [((), .put 1 (some 5)), ((), .put 1 (some 6)), ((), .remove 1)]
    (∃ run last log, (htAlter (htCreate (fun i => i * 10000) 3 none none true true)
        P.keepEntry P.entryExpired P.removeEntry).steps calls = .ok (run, last) ∧
      htDestroy last = .ok log ∧ (Hashtable.Settled run log ↔ ∀ s ∈ run, s.Spares)) ∧
    ∃ run last, (lhtAlter (lhtCreate (fun i => i * 10000) 3 true)
        P.keepEntry P.entryExpired P.removeEntry).steps longCalls = .ok (run, last) ∧
      (LongHashtable.Settled run (lhtDestroy last) ↔ ∀ i, last.backbone i = none) := by
  intro P calls longCalls
  exact settled_create_iff (fun i => i * 10000) 3 none none P calls longCalls (by decide) (by decide)
    Hashtable.extents_apart

/-- One value put and the table destroyed: nobody reclaims it. -/
theorem not_settled_lhtDestroy :
    let lht : LongHashtable Unit ℕ := lhtCreate (fun i => i * 10000) 257 true
    ∃ run last, lht.steps [((), .put 1 (some 5))] = .ok (run, last) ∧
      ¬LongHashtable.Settled run (lhtDestroy last) := by
  intro lht
  have hcounts : ((lht.steps [((), .put 1 (some 5))]).toOption.map fun r =>
      (((lhtDestroy r.2).filterMap Reclaim.value? ++ r.1.flatMap LongHashtable.Step.handedOut).length,
        (r.1.flatMap LongHashtable.Step.accepted).length)) = some (0, 1) := by
    decide +kernel
  cases hrun : lht.steps [((), .put 1 (some 5))] with
  | error fault =>
    rw [hrun] at hcounts
    cases hcounts
  | ok r =>
    rw [hrun] at hcounts
    obtain ⟨hreclaimed, haccepted⟩ := Prod.mk.inj (Option.some.inj hcounts)
    refine ⟨r.1, r.2, rfl, fun hsettled => ?_⟩
    have hlength := hsettled.values.length_eq
    rw [hreclaimed, haccepted] at hlength
    cases hlength

end ZoweCommon
