import ZoweCommon.Collections.HashtableInvariant

/-! What each operation returns and which entries it leaves, for a well-formed table. -/
namespace ZoweCommon
namespace Hashtable

open Linked

variable {M K V : Type} [DecidableEq K] [Pointer K] {mem mem' : M} {ht : Hashtable M K V}
  {chains : ℕ → List ℕ} {free : List ℕ} {S : Set (K × Option V)}

/-- A well-formed table with exactly the entries `S`. -/
def Represents (mem : M) (ht : Hashtable M K V) (S : Set (K × Option V)) : Prop :=
  ∃ chains free, Rep mem ht chains free ∧ ht.contents chains = S

/-- Memory may change under a table as long as the keys in it keep their meaning. -/
theorem Represents.of_memory (h : Represents mem ht S)
    (hhash : ∀ e ∈ S, ht.hashcode mem' e.1 = ht.hashcode mem e.1)
    (hcmp : ∀ e ∈ S, ∀ f ∈ S, ht.compare mem' e.1 f.1 = ht.compare mem e.1 f.1) :
    Represents mem' ht S := by
  obtain ⟨chains, free, h, rfl⟩ := h
  refine ⟨chains, free, ⟨h.wf, h.size_pos, h.chain, fun i a ha => ?_, fun i => ?_, h.freeChain,
    h.freed, h.blocks⟩, rfl⟩
  · obtain ⟨e, he, hp⟩ := h.keyed i a ha
    refine ⟨e, he, ?_⟩
    rw [← hp, place, place, hhash e ⟨i, a, ha, he⟩]
  · refine (h.distinct i).imp_of_mem fun {a b} ha hb hab e f he hf => ?_
    rw [hcmp e ⟨i, a, ha, he⟩ f ⟨i, b, hb, hf⟩]
    exact hab e f he hf

theorem Rep.walkFrom_found (h : Rep mem ht chains free) (hk : Coherent mem ht) {key : K}
    {e : K × Option V} (he : e ∈ ht.contents chains) (hcmp : ht.compare mem e.1 key = true) :
    ∃ pre a post, chains (ht.place mem key) = pre ++ a :: post ∧ ht.entryAt a = some e ∧
      ht.walkFrom mem (ht.place mem key) key = .ok (pre.getLast?, some a) := by
  obtain ⟨j, b, hb, hbe⟩ := he
  rcases h.chained.walkFrom_spec mem (ht.place mem key) key with ⟨pre, a, post, f, hc, hf, hcf, hwalk⟩ | ⟨hnone, -⟩
  · have ha : a ∈ chains (ht.place mem key) := by
      rw [hc]
      simp
    have hef : ht.compare mem e.1 f.1 = true := hk.equivalence.trans hcmp (hk.equivalence.symm hcf)
    cases h.eq_of_compare hk hb ha hbe hf hef
    exact ⟨pre, b, post, hc, hbe, hwalk⟩
  · obtain ⟨e', he', hj⟩ := h.keyed j b hb
    rw [hbe, Option.some_inj] at he'
    subst he'
    rw [hk.place_eq hcmp] at hj
    subst hj
    rw [hnone b hb e hbe] at hcmp
    cases hcmp

theorem Rep.walkFrom_missing (h : Rep mem ht chains free) {key : K}
    (hnone : ∀ e ∈ ht.contents chains, ht.compare mem e.1 key = false) :
    ∃ q, ht.walkFrom mem (ht.place mem key) key = .ok (q, none) := by
  rcases h.chained.walkFrom_spec mem (ht.place mem key) key with ⟨pre, a, post, f, hc, hf, hcf, -⟩ | ⟨-, hwalk⟩
  · have hmem : f ∈ ht.contents chains := ⟨_, a, by rw [hc]; simp, hf⟩
    rw [hnone f hmem] at hcf
    cases hcf
  · exact hwalk

omit [DecidableEq K] [Pointer K] in
/-- A table on which nothing was put yet. -/
theorem chained_new {safeMalloc : ℕ → ℕ} (hbackbone : ∀ i, ht.backbone i = none)
    (hmgr : ht.mgr = fbMgrCreate safeMalloc HASHENTRY_SIZE 256)
    (hd : ∀ i j, i < j →
      safeMalloc i + FixedBlockMgr.extentSize HASHENTRY_SIZE 256 ≤ safeMalloc j ∨
      safeMalloc j + FixedBlockMgr.extentSize HASHENTRY_SIZE 256 ≤ safeMalloc i) :
    Chained ht (fun _ => []) [] where
  wf := hmgr ▸ FixedBlockMgr.wf_fbMgrCreate (by decide) (by decide) hd
  chain i := hbackbone i
  live := by simp
  apart := by simp
  slots := by simp
  freeChain := by
    rw [hmgr]
    rfl
  freed := by simp
  blocks a := by
    rw [hmgr]
    simp

omit [DecidableEq K] [Pointer K] in
/-- Extents that are cut ten thousand bytes apart do not overlap. -/
theorem extents_apart (i j : ℕ) (h : i < j) :
    i * 10000 + FixedBlockMgr.extentSize HASHENTRY_SIZE 256 ≤ j * 10000 ∨
      j * 10000 + FixedBlockMgr.extentSize HASHENTRY_SIZE 256 ≤ i * 10000 := by
  simp only [FixedBlockMgr.extentSize, HASHENTRY_SIZE, FB_HEADER_LENGTH]
  omega

theorem represents_htAlter_htCreate {safeMalloc : ℕ → ℕ} {backboneSize : ℕ}
    {hash : Option (M → K → BitVec 32)} {compare : Option (M → K → K → Bool)}
    {keyReclaimer valueReclaimer : Bool}
    {keepEntry entryExpired removeEntry : Option (M → Option V → Bool)}
    (hpos : 0 < backboneSize)
    (hd : ∀ i j, i < j →
      safeMalloc i + FixedBlockMgr.extentSize HASHENTRY_SIZE 256 ≤ safeMalloc j ∨
      safeMalloc j + FixedBlockMgr.extentSize HASHENTRY_SIZE 256 ≤ safeMalloc i) :
    Represents mem (htAlter (htCreate safeMalloc backboneSize hash compare keyReclaimer
      valueReclaimer) keepEntry entryExpired removeEntry) ∅ := by
  have hnew : Chained (htAlter (htCreate (V := V) safeMalloc backboneSize hash compare keyReclaimer
      valueReclaimer) keepEntry entryExpired removeEntry) (fun _ => []) [] :=
    chained_new (fun _ => rfl) rfl hd
  refine ⟨fun _ => [], [], ⟨hnew.wf, hpos, hnew.chain, by simp, fun _ => List.Pairwise.nil,
    hnew.freeChain, hnew.freed, hnew.blocks⟩, ?_⟩
  ext e
  simp [contents]

/-- Taking the entry with an equal key off its chain drops exactly that entry. -/
theorem Rep.represents_htDequeue (h : Rep mem ht chains free) (hk : Coherent mem ht) {i a : ℕ}
    {pre post : List ℕ} {e : K × Option V} {key : K} (hc : chains i = pre ++ a :: post)
    (he : ht.entryAt a = some e) (hcmp : ht.compare mem e.1 key = true) (valueReclaim : Bool) :
    SameSetup ht (htDequeue ht i pre.getLast? a valueReclaim) ∧
      Represents mem (htDequeue ht i pre.getLast? a valueReclaim)
        {f ∈ ht.contents chains | ht.compare mem f.1 key = false} := by
  rw [htDequeue_eq]
  exact ⟨sameSetup_detach _ _ _ _ _, _, _, h.detach hc _, h.contents_detach hk hc he hcmp _⟩

theorem Represents.htRemove_found (h : Represents mem ht S) (hk : Coherent mem ht) {key : K}
    {e : K × Option V} (he : e ∈ S) (hcmp : ht.compare mem e.1 key = true) :
    ∃ ht', htRemove mem ht key = .ok (1, ht') ∧ SameSetup ht ht' ∧
      Represents mem ht' {f ∈ S | ht.compare mem f.1 key = false} := by
  obtain ⟨chains, free, h, rfl⟩ := h
  obtain ⟨pre, a, post, hc, hae, hwalk⟩ := h.walkFrom_found hk he hcmp
  refine ⟨_, ?_, h.represents_htDequeue hk hc hae hcmp true⟩
  simp [htRemove, hwalk]

theorem Represents.htRemove_missing (h : Represents mem ht S) {key : K}
    (hnone : ∀ e ∈ S, ht.compare mem e.1 key = false) : htRemove mem ht key = .ok (0, ht) := by
  obtain ⟨chains, free, h, rfl⟩ := h
  obtain ⟨q, hwalk⟩ := h.walkFrom_missing hnone
  simp [htRemove, hwalk]

/-- Whether `htGet` takes the entry it finds off its chain. -/
def drops (mem : M) (ht : Hashtable M K V) (value : Option V) : Bool :=
  ht.entryExpired.any (· mem value) || ht.removeEntry.any (· mem value)

theorem Represents.htGet_found (h : Represents mem ht S) (hk : Coherent mem ht) {key : K}
    {e : K × Option V} (he : e ∈ S) (hcmp : ht.compare mem e.1 key = true) :
    ∃ ht', htGet mem ht key =
        .ok (if ht.entryExpired.any (· mem e.2) then none else e.2, ht') ∧ SameSetup ht ht' ∧
      Represents mem ht'
        (if ht.drops mem e.2 then {f ∈ S | ht.compare mem f.1 key = false} else S) := by
  obtain ⟨chains, free, h, rfl⟩ := h
  obtain ⟨pre, a, post, hc, hae, hwalk⟩ := h.walkFrom_found hk he hcmp
  have hvalue := (entryAt_eq_some.mp hae).2
  have hdeq := h.represents_htDequeue hk hc hae hcmp
  simp only [htGet, hwalk, Exec.ok_bind, hvalue]
  by_cases hexp : ht.entryExpired.any (· mem e.2) = true
  · have hdrops : ht.drops mem e.2 = true := by simp [drops, hexp]
    rw [if_pos hexp, if_pos hexp, if_pos hdrops]
    exact ⟨_, rfl, hdeq true⟩
  · rw [if_neg hexp, if_neg hexp]
    by_cases hrem : ht.removeEntry.any (· mem e.2) = true
    · have hdrops : ht.drops mem e.2 = true := by simp [drops, hrem]
      rw [if_pos hrem, if_pos hdrops]
      exact ⟨_, rfl, hdeq false⟩
    · have hkeeps : ¬ht.drops mem e.2 = true := by simp [drops, hexp, hrem]
      rw [if_neg hrem, if_neg hkeeps]
      exact ⟨_, rfl, SameSetup.refl ht, chains, free, h, rfl⟩

theorem Represents.htGet_missing (h : Represents mem ht S) {key : K}
    (hnone : ∀ e ∈ S, ht.compare mem e.1 key = false) : htGet mem ht key = .ok (none, ht) := by
  obtain ⟨chains, free, h, rfl⟩ := h
  obtain ⟨q, hwalk⟩ := h.walkFrom_missing hnone
  simp [htGet, hwalk]

theorem Represents.htPut_found (h : Represents mem ht S) (hk : Coherent mem ht) {key : K}
    {e : K × Option V} (he : e ∈ S) (hcmp : ht.compare mem e.1 key = true) (value : Option V) :
    if ht.keepEntry.any (· mem e.2) then htPut mem ht key value = .ok (2, ht)
    else ∃ ht', htPut mem ht key value = .ok (1, ht') ∧ SameSetup ht ht' ∧
      Represents mem ht' (insert (key, value) {f ∈ S | ht.compare mem f.1 key = false}) := by
  obtain ⟨chains, free, h, rfl⟩ := h
  obtain ⟨pre, a, post, hc, hae, hwalk⟩ := h.walkFrom_found hk he hcmp
  have ha : a ∈ chains (ht.place mem key) := by
    rw [hc]
    simp
  have hvalue := (entryAt_eq_some.mp hae).2
  simp only [htPut, htPut2, hwalk, Exec.ok_bind, hvalue]
  split_ifs with hkeep
  · rfl
  · refine ⟨_, rfl, ?_⟩
    have hlog : ∃ log, { ((ht.reclaimKey a).reclaimValue a) with
          heap := Function.update ((ht.reclaimKey a).reclaimValue a).heap a
            { ((ht.reclaimKey a).reclaimValue a).heap a with key := .key key, value := value } } =
        { ht.overwrite a key value with reclaimed := log } := by
      refine ⟨((ht.reclaimKey a).reclaimValue a).reclaimed, ?_⟩
      simp only [reclaimKey, reclaimValue, Hashtable.overwrite]
      split_ifs <;> rfl
    obtain ⟨log, hlog⟩ := hlog
    rw [hlog]
    exact ⟨⟨rfl, rfl, rfl, rfl, rfl, rfl⟩, chains, free, h.overwrite hk ha hae hcmp value log,
      h.contents_overwrite hk ha hae hcmp value log⟩

theorem Represents.htPut_missing (h : Represents mem ht S) (hk : Coherent mem ht) {key : K}
    (hnone : ∀ e ∈ S, ht.compare mem e.1 key = false) (value : Option V) :
    ∃ ht', htPut mem ht key value = .ok (0, ht') ∧ SameSetup ht ht' ∧
      Represents mem ht' (insert (key, value) S) := by
  obtain ⟨chains, free, h, rfl⟩ := h
  obtain ⟨q, hwalk⟩ := h.walkFrom_missing hnone
  obtain ⟨a, mgr, free', halloc, hwf, hfc, hafree, hsub, hnew, hblocks⟩ := h.chained.fbMgrAlloc_spec
  refine ⟨ht.pushEntry mgr (ht.place mem key) a key value, ?_, ⟨rfl, rfl, rfl, rfl, rfl, rfl⟩,
    _, free', h.pushEntry hk rfl hwf hfc hafree hsub hnew hblocks
      (fun b hb e he => hnone e ⟨_, b, hb, he⟩) value, contents_pushEntry hnew key value⟩
  simp [htPut, htPut2, hwalk, halloc, Hashtable.pushEntry]

/-! Walks over the whole backbone -/

def slotEntries (ht : Hashtable M K V) (chains : ℕ → List ℕ) (i : ℕ) : List (K × Option V) :=
  (chains i).filterMap ht.entryAt

omit [DecidableEq K] [Pointer K] in
theorem mem_contents_iff {e : K × Option V} :
    e ∈ ht.contents chains ↔ ∃ i, e ∈ ht.slotEntries chains i := by
  simp only [contents, slotEntries, List.mem_filterMap]
  rfl

omit [DecidableEq K] [Pointer K] in
theorem filterMap_entryAt_detach (ht : Hashtable M K V) (place : ℕ) (prev : Option ℕ) {entry : ℕ}
    {as : List ℕ} (has : entry ∉ as) (log : List (Reclaim K V)) :
    as.filterMap (entryAt { ht.detach place prev entry with reclaimed := log }) =
      as.filterMap ht.entryAt := by
  refine List.filterMap_congr fun b hb => ?_
  exact entryAt_detach_of_ne fun hbe => has (hbe ▸ hb)

/-- The calls `htPrune` makes for an entry it removes. -/
def pruneLog (ht : Hashtable M K V) (destroyer : Bool) (e : K × Option V) : List (Reclaim K V) :=
  ht.keyLog (.key e.1) ++ destroyLog destroyer e.2

omit [DecidableEq K] [Pointer K] in
theorem Logged.pruneLog {log : List (Reclaim K V)} (h : Logged ht ht' log) (destroyer : Bool) :
    ht'.pruneLog destroyer = ht.pruneLog destroyer := by
  funext e
  unfold Hashtable.pruneLog
  rw [h.keyLog]

omit [DecidableEq K] [Pointer K] in
/-- One run of the inner loop of `htPrune` keeps what the matcher rejects, in order. -/
theorem pruneChain_spec (matcher : K → Option V → Bool) (destroyer : Bool) {i : ℕ}
    {as : List ℕ} : ∀ (pre : List ℕ) (n : ℕ) {ht : Hashtable M K V} {chains : ℕ → List ℕ}
      {free : List ℕ} {fuel : ℕ}, Chained ht chains free → chains i = pre ++ as → as.length ≤ fuel →
    ∃ ht' chains' free', pruneChain matcher destroyer i fuel pre.getLast? as.head? ht n =
        .ok (ht', n + (as.filterMap ht.entryAt).countP fun e => matcher e.1 e.2) ∧
      SameSetup ht ht' ∧
      Logged ht ht' (((as.filterMap ht.entryAt).filter fun e => matcher e.1 e.2).flatMap
        (ht.pruneLog destroyer)) ∧
      Chained ht' chains' free' ∧
      ht'.slotEntries chains' i = pre.filterMap ht.entryAt ++
        (as.filterMap ht.entryAt).filter (fun e => !matcher e.1 e.2) ∧
      ∀ j ≠ i, ht'.slotEntries chains' j = ht.slotEntries chains j := by
  induction as with
  | nil =>
    intro pre n ht chains free fuel h hc hf
    refine ⟨ht, chains, free, ?_, SameSetup.refl ht, Logged.refl ht, h, ?_, fun _ _ => rfl⟩
    · cases fuel <;> simp [pruneChain]
    · simp [slotEntries, hc]
  | cons a as ih =>
    intro pre n ht chains free fuel h hc hf
    obtain ⟨fuel, rfl⟩ : ∃ m, fuel = m + 1 :=
      Nat.exists_eq_succ_of_ne_zero fun h0 => by simp [h0] at hf
    have ha : a ∈ chains i := by
      rw [hc]
      simp
    obtain ⟨e, he⟩ := h.live i a ha
    obtain ⟨hkey, hvalue⟩ := entryAt_eq_some.mp he
    have hi := h.chain i
    rw [hc] at hi
    have hnext : ht.next a = as.head? := hi.next_eq_head?
    have hfuel : as.length ≤ fuel := by simpa using hf
    cases hm : matcher e.1 e.2 with
    | true =>
      have heq := pruneEntry_eq ht i pre.getLast? a destroyer
      rw [hkey, hvalue] at heq
      have hlogged := logged_detach ht i pre.getLast? a (ht.pruneLog destroyer e)
      have hold : ∀ bs : List ℕ, (∀ b ∈ bs, b ∈ pre ++ as) → a ∉ bs := by
        intro bs hbs hab
        exact hi.mem_ne_of_append _ (hbs a hab) rfl
      have hpre := filterMap_entryAt_detach ht i pre.getLast? (hold pre (by simp +contextual))
        (ht.reclaimed ++ ht.pruneLog destroyer e)
      have has := filterMap_entryAt_detach ht i pre.getLast? (hold as (by simp +contextual))
        (ht.reclaimed ++ ht.pruneLog destroyer e)
      obtain ⟨ht', chains', free', hrun, hset, hlogged', hrep, hslot, hother⟩ :=
        ih pre (n + 1) (h.detach hc _) (Function.update_self ..) hfuel
      refine ⟨ht', chains', free', ?_, (sameSetup_detach _ _ _ _ _).trans hset, ?_, hrep, ?_,
        fun j hj => ?_⟩
      · rw [has] at hrun
        simp only [List.head?_cons, pruneChain, hkey, hvalue, hm, if_true, hnext, heq]
        change pruneChain matcher destroyer i fuel pre.getLast? as.head?
          { ht.detach i pre.getLast? a with reclaimed := ht.reclaimed ++ ht.pruneLog destroyer e }
          (n + 1) = _
        simp only [hrun, List.filterMap_cons, he, List.countP_cons, hm, if_true]
        congr 2
        omega
      · have hboth := hlogged.trans hlogged'
        rw [has, hlogged.pruneLog] at hboth
        simpa [he, hm] using hboth
      · rw [hslot, hpre, has]
        simp [he, hm]
      · rw [hother j hj]
        have haj : a ∉ chains j := fun haj => hj (h.apart _ _ _ haj ha)
        simp only [slotEntries, Function.update_of_ne hj]
        exact filterMap_entryAt_detach ht i pre.getLast? haj _
    | false =>
      obtain ⟨ht', chains', free', hrun, hset, hlogged, hrep, hslot, hother⟩ :=
        ih (pre ++ [a]) n h (by simp [hc]) hfuel
      refine ⟨ht', chains', free', ?_, hset, ?_, hrep, ?_, hother⟩
      · rw [List.getLast?_concat] at hrun
        simp [pruneChain, hkey, hvalue, hm, hnext, hrun, he]
      · simpa [he, hm] using hlogged
      · rw [hslot]
        simp [he, hm]

omit [DecidableEq K] [Pointer K] in
theorem pruneSlots_spec (matcher : K → Option V → Bool) (destroyer : Bool) (left : ℕ) :
    ∀ (i n : ℕ) {ht : Hashtable M K V} {chains : ℕ → List ℕ} {free : List ℕ},
      Chained ht chains free →
    ∃ ht' chains' free', pruneSlots matcher destroyer left i ht n =
        .ok (ht', n + ((List.range' i left).flatMap (ht.slotEntries chains)).countP
          fun e => matcher e.1 e.2) ∧
      SameSetup ht ht' ∧
      Logged ht ht' ((((List.range' i left).flatMap (ht.slotEntries chains)).filter
        fun e => matcher e.1 e.2).flatMap (ht.pruneLog destroyer)) ∧
      Chained ht' chains' free' ∧
      ∀ j, ht'.slotEntries chains' j = if i ≤ j ∧ j < i + left then
        (ht.slotEntries chains j).filter (fun e => !matcher e.1 e.2)
        else ht.slotEntries chains j := by
  induction left with
  | zero =>
    intro i n ht chains free h
    refine ⟨ht, chains, free, ?_, SameSetup.refl ht, Logged.refl ht, h, fun j => ?_⟩
    · simp [pruneSlots]
    · rw [if_neg (by omega)]
  | succ left ih =>
    intro i n ht chains free h
    obtain ⟨ht₁, chains₁, free₁, hrun₁, hset₁, hlogged₁, hrep₁, hslot₁, hother₁⟩ :=
      pruneChain_spec matcher destroyer [] n h rfl (h.length_le i)
    obtain ⟨ht₂, chains₂, free₂, hrun₂, hset₂, hlogged₂, hrep₂, hslot₂⟩ := ih (i + 1)
      (n + (ht.slotEntries chains i).countP fun e => matcher e.1 e.2) hrep₁
    have hlater : (List.range' (i + 1) left).flatMap (ht₁.slotEntries chains₁) =
        (List.range' (i + 1) left).flatMap (ht.slotEntries chains) := by
      refine List.flatMap_congr fun j hj => hother₁ j ?_
      have := List.mem_range'_1.mp hj
      omega
    refine ⟨ht₂, chains₂, free₂, ?_, hset₁.trans hset₂, ?_, hrep₂, fun j => ?_⟩
    · rw [hlater] at hrun₂
      rw [(h.chain i).head?_eq] at hrun₁
      simp only [pruneSlots, ← List.getLast?_nil (α := ℕ), hrun₁, Exec.ok_bind]
      change pruneSlots matcher destroyer left (i + 1) ht₁
        (n + (ht.slotEntries chains i).countP fun e => matcher e.1 e.2) = _
      rw [hrun₂, List.range'_succ, List.flatMap_cons, List.countP_append, Nat.add_assoc]
    · have hboth := hlogged₁.trans hlogged₂
      rw [hlater, hlogged₁.pruneLog, ← List.flatMap_append, ← List.filter_append] at hboth
      rw [List.range'_succ, List.flatMap_cons]
      exact hboth
    · rw [hslot₂ j]
      by_cases hj : j = i
      · subst hj
        rw [if_neg (by omega), if_pos (by omega), hslot₁]
        rfl
      · rw [hother₁ j hj]
        by_cases hji : i + 1 ≤ j ∧ j < i + 1 + left
        · rw [if_pos hji, if_pos (by omega)]
        · rw [if_neg hji, if_neg (by omega)]

def entries (ht : Hashtable M K V) (chains : ℕ → List ℕ) : List (K × Option V) :=
  (List.range ht.backboneSize).flatMap (ht.slotEntries chains)

theorem Rep.mem_entries (h : Rep mem ht chains free) {e : K × Option V} :
    e ∈ ht.entries chains ↔ e ∈ ht.contents chains := by
  rw [mem_contents_iff]
  simp only [entries, List.mem_flatMap, List.mem_range]
  constructor
  · rintro ⟨i, -, he⟩
    exact ⟨i, he⟩
  · rintro ⟨i, he⟩
    obtain ⟨a, ha, -⟩ := List.mem_filterMap.mp he
    exact ⟨i, h.mem_slot_lt ha, he⟩

theorem Rep.slotEntries_pairwise (h : Rep mem ht chains free) (i : ℕ) :
    (ht.slotEntries chains i).Pairwise fun e f => ht.compare mem e.1 f.1 = false := by
  refine List.pairwise_filterMap.mpr ((h.distinct i).imp fun hab e he f hf => hab e f he hf)

/-- No entry occurs twice in a table. -/
theorem Rep.nodup_entries (h : Rep mem ht chains free) (hk : Coherent mem ht) :
    (ht.entries chains).Nodup := by
  refine List.nodup_flatMap.mpr ⟨fun i _ => ?_, ?_⟩
  · refine (h.slotEntries_pairwise i).imp fun {e f} hef => ?_
    rintro rfl
    rw [hk.equivalence.refl e.1] at hef
    cases hef
  · refine List.nodup_range.imp fun {i j} hij e he hf => hij ?_
    obtain ⟨a, ha, hae⟩ := List.mem_filterMap.mp he
    obtain ⟨b, hb, hbe⟩ := List.mem_filterMap.mp hf
    obtain ⟨e', he', hi⟩ := h.keyed i a ha
    obtain ⟨f', hf', hj⟩ := h.keyed j b hb
    rw [hae, Option.some_inj] at he'
    rw [hbe, Option.some_inj] at hf'
    rw [← hi, ← hj, ← he', ← hf']

omit [DecidableEq K] [Pointer K] in
theorem Chained.htPrune_spec (h : Chained ht chains free) (matcher : K → Option V → Bool)
    (destroyer : Bool) :
    ∃ ht' chains' free', htPrune ht matcher destroyer =
        .ok ((ht.entries chains).countP fun e => matcher e.1 e.2, ht') ∧
      SameSetup ht ht' ∧
      Logged ht ht' (((ht.entries chains).filter fun e => matcher e.1 e.2).flatMap
        (ht.pruneLog destroyer)) ∧
      Chained ht' chains' free' ∧
      ∀ i, ht'.slotEntries chains' i = (ht.slotEntries chains i).filter fun e => !matcher e.1 e.2 := by
  obtain ⟨ht', chains', free', hrun, hset, hlogged, hrep, hslot⟩ :=
    pruneSlots_spec matcher destroyer ht.backboneSize 0 0 h
  rw [← List.range_eq_range'] at hrun hlogged
  rw [Nat.zero_add] at hrun
  refine ⟨ht', chains', free', ?_, hset, hlogged, hrep, fun i => ?_⟩
  · simp [htPrune, hrun, entries]
  · rw [hslot i]
    split_ifs with hi
    · rfl
    · -- a slot outside the backbone holds no entry
      have hnil : ht.slotEntries chains i = [] := by
        refine List.eq_nil_iff_forall_not_mem.mpr fun f hf => hi ?_
        obtain ⟨a, ha, -⟩ := List.mem_filterMap.mp hf
        have := h.slots i a ha
        omega
      rw [hnil]
      rfl

/-- Entries that were in their places still are after others left. -/
theorem Rep.shrink {chains' : ℕ → List ℕ} {free' : List ℕ} (h : Rep mem ht chains free)
    (hset : SameSetup ht ht') (hchained : Chained ht' chains' free')
    (hsub : ∀ i, (ht'.slotEntries chains' i).Sublist (ht.slotEntries chains i)) :
    Rep mem ht' chains' free' := by
  refine ⟨hchained.wf, ?_, hchained.chain, fun i a ha => ?_, fun i => ?_, hchained.freeChain,
    hchained.freed, hchained.blocks⟩
  · rw [hset.backboneSize]
    exact h.size_pos
  · obtain ⟨e, he⟩ := hchained.live i a ha
    refine ⟨e, he, ?_⟩
    obtain ⟨b, hb, hbe⟩ := List.mem_filterMap.mp ((hsub i).subset (List.mem_filterMap.mpr ⟨a, ha, he⟩))
    obtain ⟨f, hf, hp⟩ := h.keyed i b hb
    rw [hbe, Option.some_inj] at hf
    rw [hset.place, hf, hp]
  · have hpair := (h.slotEntries_pairwise i).sublist (hsub i)
    refine (List.pairwise_filterMap.mp hpair).imp fun {a b} hab e f he hf => ?_
    rw [hset.compare]
    exact hab e he f hf

theorem Represents.htPrune_spec (h : Represents mem ht S) (hk : Coherent mem ht)
    (matcher : K → Option V → Bool) (destroyer : Bool) :
    ∃ (l : List (K × Option V)) (ht' : Hashtable M K V), l.Nodup ∧ (∀ e, e ∈ l ↔ e ∈ S) ∧
      htPrune ht matcher destroyer = .ok (l.countP fun e => matcher e.1 e.2, ht') ∧
      SameSetup ht ht' ∧ Represents mem ht' {e ∈ S | matcher e.1 e.2 = false} := by
  obtain ⟨chains, free, h, rfl⟩ := h
  obtain ⟨ht', chains', free', hrun, hset, -, hchained, hslot⟩ :=
    h.chained.htPrune_spec matcher destroyer
  have hrep : Rep mem ht' chains' free' := by
    refine h.shrink hset hchained fun i => ?_
    rw [hslot i]
    exact List.filter_sublist
  refine ⟨ht.entries chains, ht', h.nodup_entries hk, fun e => h.mem_entries, hrun, hset,
    chains', free', hrep, ?_⟩
  ext e
  rw [mem_contents_iff]
  change _ ↔ e ∈ ht.contents chains ∧ matcher e.1 e.2 = false
  rw [mem_contents_iff, ← exists_and_right]
  refine exists_congr fun i => ?_
  rw [hslot i, List.mem_filter, Bool.not_eq_true']

omit [DecidableEq K] [Pointer K] in
theorem countChain_spec {p : Option ℕ} {as : List ℕ} {fuel n : ℕ} (hc : Chain ht.next p as)
    (hf : as.length ≤ fuel) : ht.countChain fuel p n = .ok (n + as.length) := by
  induction as generalizing p fuel n with
  | nil =>
    cases chain_nil.mp hc
    cases fuel <;> simp [countChain]
  | cons a as ih =>
    obtain ⟨rfl, hc⟩ := hc
    obtain ⟨fuel, rfl⟩ : ∃ m, fuel = m + 1 :=
      Nat.exists_eq_succ_of_ne_zero fun h0 => by simp [h0] at hf
    rw [countChain, ih hc (by simpa using hf), List.length_cons]
    congr 1
    omega

omit [DecidableEq K] [Pointer K] in
theorem Chained.length_slotEntries (h : Chained ht chains free) (i : ℕ) :
    (ht.slotEntries chains i).length = (chains i).length := by
  refine List.filterMap_length_eq_length.mpr fun a ha => ?_
  obtain ⟨e, he⟩ := h.live i a ha
  rw [he]
  rfl

omit [DecidableEq K] [Pointer K] in
theorem Chained.countSlots_spec (h : Chained ht chains free) {left i n : ℕ} :
    ht.countSlots left i n =
      .ok (n + ((List.range' i left).flatMap (ht.slotEntries chains)).length) := by
  induction left generalizing i n with
  | zero => simp [countSlots]
  | succ left ih =>
    rw [countSlots, countChain_spec (h.chain i) (h.length_le i), Exec.ok_bind, ih,
      List.range'_succ, List.flatMap_cons, List.length_append, h.length_slotEntries,
      Nat.add_assoc]

theorem Represents.htCount_spec (h : Represents mem ht S) (hk : Coherent mem ht) :
    ∃ l : List (K × Option V), l.Nodup ∧ (∀ e, e ∈ l ↔ e ∈ S) ∧ htCount ht = .ok l.length := by
  obtain ⟨chains, free, h, rfl⟩ := h
  refine ⟨ht.entries chains, h.nodup_entries hk, fun e => h.mem_entries, ?_⟩
  rw [htCount, h.chained.countSlots_spec, ← List.range_eq_range', Nat.zero_add]
  rfl

end Hashtable
end ZoweCommon
