import Mathlib.Data.List.Basic
import Mathlib.Data.Nat.ModEq
import ZoweCommon.Collections.LockFreeQueue

/-! In any interleaving, the elements leave the queue in the order in which they came. -/
namespace ZoweCommon
namespace LockFreeQueue

open Linked State

variable {T : Type} {LONG_MAX : ℕ}

/-! The counter -/

def counterOf (LONG_MAX commits : ℕ) : ℕ := 1 + commits % LONG_MAX

theorem newCounter_counterOf (hmax : 0 < LONG_MAX) (n : ℕ) :
    newCounter LONG_MAX (counterOf LONG_MAX n) = counterOf LONG_MAX (n + 1) := by
  have hlt : n % LONG_MAX < LONG_MAX := Nat.mod_lt n hmax
  have hsplit := Nat.div_add_mod n LONG_MAX
  unfold newCounter counterOf
  by_cases hwrap : n % LONG_MAX + 1 = LONG_MAX
  · have hzero : (n + 1) % LONG_MAX = 0 := by
      have hnext : n + 1 = LONG_MAX * (n / LONG_MAX) + LONG_MAX := by omega
      rw [hnext, Nat.add_mod_right, Nat.mul_mod_right]
    rw [if_pos (by omega), hzero]
  · have hsucc : (n + 1) % LONG_MAX = n % LONG_MAX + 1 := by
      have hnext : n + 1 = LONG_MAX * (n / LONG_MAX) + (n % LONG_MAX + 1) := by omega
      rw [hnext, Nat.mul_add_mod]
      exact Nat.mod_eq_of_lt (by omega)
    rw [if_neg (by omega), hsucc]
    omega

/-- Within one turn of the counter, equal values mean the same number of commits. -/
theorem counterOf_inj {n m : ℕ} (hle : n ≤ m) (hlt : m < n + LONG_MAX)
    (h : counterOf LONG_MAX m = counterOf LONG_MAX n) : n = m := by
  unfold counterOf at h
  have hdvd : LONG_MAX ∣ m - n := (Nat.modEq_iff_dvd' hle).mp (by
    show n % LONG_MAX = m % LONG_MAX
    omega)
  have hzero := Nat.eq_zero_of_dvd_of_lt hdvd (by omega)
  omega

/-! What a thread knows -/

/-- The counter was read after `n` commits; if there has been none since, `known` holds. -/
def Guarded (LONG_MAX : ℕ) (s : State T) (c n : ℕ) (known : Prop) : Prop :=
  c = counterOf LONG_MAX n ∧ n ≤ s.commits.length ∧ (n = s.commits.length → known)

/-- What holds of the local variables of a thread. -/
def ThreadInv (LONG_MAX : ℕ) (s : State T) : ThreadState → Prop
  | .idle => True
  | .enqCounter _ => True
  | .enqHead _ c n => Guarded LONG_MAX s c n True
  | .enqHeadAgain _ c n => Guarded LONG_MAX s c n (s.head ≠ none)
  | .enqTail e c n desiredQHead => Guarded LONG_MAX s c n (desiredQHead = s.head.or (some e))
  | .enqTailAgain e c n desiredQHead last =>
    Guarded LONG_MAX s c n (desiredQHead = s.head.or (some e) ∧ last = s.tail)
  | .enqSwap e c n desiredQHead thing3 => Guarded LONG_MAX s c n
      (desiredQHead = s.head.or (some e) ∧ thing3 = if s.tail ≠ none then .next s.tail else .tail)
  | .deqCounter => True
  | .deqHead c n => Guarded LONG_MAX s c n True
  | .deqLoad c n currentHead => Guarded LONG_MAX s c n (s.head = some currentHead)
  | .deqTail c n currentHead desiredQHead => Guarded LONG_MAX s c n
      (s.head = some currentHead ∧ desiredQHead = s.next currentHead)
  | .deqSwap c n currentHead desiredQHead desiredQTail => Guarded LONG_MAX s c n
      (s.head = some currentHead ∧ desiredQHead = s.next currentHead ∧
        desiredQTail = if desiredQHead ≠ none then s.tail else none)

structure Inv (LONG_MAX : ℕ) (s : State T) (elements : List ℕ) : Prop where
  chain : Chain s.next s.head elements
  tail : s.tail = elements.getLast?
  counter : s.counter = counterOf LONG_MAX s.commits.length
  order : enqueued s.commits = dequeued s.commits ++ elements
  tame : s.wild = false
  threads : ∀ t, ThreadInv LONG_MAX s (s.threads t)
  out : ∀ t e, enqueuing (s.threads t) = some e → e ∉ elements ∧ s.next e = none
  owner : ∀ t t' e, enqueuing (s.threads t) = some e → enqueuing (s.threads t') = some e → t = t'

theorem reaches_iff {next : ℕ → Option ℕ} {p : Option ℕ} {elements : List ℕ}
    (h : Chain next p elements) (e : ℕ) : Reaches next p e ↔ e ∈ elements := by
  induction elements generalizing p with
  | nil =>
    rw [chain_nil.mp h]
    exact ⟨nofun, fun hmem => absurd hmem List.not_mem_nil⟩
  | cons first elements ih =>
    obtain ⟨rfl, hrest⟩ := h
    rw [List.mem_cons]
    constructor
    · intro hreaches
      cases hreaches with
      | here => exact .inl rfl
      | next hnext => exact .inr ((ih hrest).mp hnext)
    · rintro (rfl | hmem)
      · exact .here e
      · exact .next ((ih hrest).mpr hmem)

/-- What is known after no commit does not depend on what is stored elsewhere. -/
theorem Guarded.imp {s s' : State T} {c n : ℕ} {known known' : Prop}
    (h : Guarded LONG_MAX s c n known) (hcommits : s'.commits = s.commits)
    (himp : n = s.commits.length → known → known') : Guarded LONG_MAX s' c n known' := by
  obtain ⟨hcounter, hle, hknown⟩ := h
  unfold Guarded
  rw [hcommits]
  exact ⟨hcounter, hle, fun heq => himp heq (hknown heq)⟩

/-- After a commit, nothing that was read before it is known any more. -/
theorem Guarded.commit {s s' : State T} {c n : ℕ} {known known' : Prop}
    (h : Guarded LONG_MAX s c n known) (hcommits : s'.commits.length = s.commits.length + 1) :
    Guarded LONG_MAX s' c n known' := by
  obtain ⟨hcounter, hle, -⟩ := h
  unfold Guarded
  rw [hcommits]
  exact ⟨hcounter, by omega, fun heq => by omega⟩

theorem ThreadInv.commit {s s' : State T} {at' : ThreadState} (h : ThreadInv LONG_MAX s at')
    (hcommits : s'.commits.length = s.commits.length + 1) : ThreadInv LONG_MAX s' at' := by
  cases at' with
  | idle => trivial
  | enqCounter => trivial
  | deqCounter => trivial
  | enqHead => exact Guarded.commit h hcommits
  | enqHeadAgain => exact Guarded.commit h hcommits
  | enqTail => exact Guarded.commit h hcommits
  | enqTailAgain => exact Guarded.commit h hcommits
  | enqSwap => exact Guarded.commit h hcommits
  | deqHead => exact Guarded.commit h hcommits
  | deqLoad => exact Guarded.commit h hcommits
  | deqTail => exact Guarded.commit h hcommits
  | deqSwap => exact Guarded.commit h hcommits

/-- A store to an element outside the queue changes nothing that a thread knows. -/
theorem ThreadInv.setNext {s s' : State T} {at' : ThreadState} (h : ThreadInv LONG_MAX s at')
    (hcommits : s'.commits = s.commits) (hhead : s'.head = s.head) (htail : s'.tail = s.tail)
    (hnext : ∀ e, s.head = some e → s'.next e = s.next e) : ThreadInv LONG_MAX s' at' := by
  have htail' : ∀ {c n currentHead : ℕ} {desiredQHead : Option ℕ},
      Guarded LONG_MAX s c n (s.head = some currentHead ∧ desiredQHead = s.next currentHead) →
      Guarded LONG_MAX s' c n (s'.head = some currentHead ∧ desiredQHead = s'.next currentHead) := by
    intro c n currentHead desiredQHead hguarded
    apply hguarded.imp hcommits
    rintro - ⟨hcurrent, hdesired⟩
    rw [hhead, hnext currentHead hcurrent]
    exact ⟨hcurrent, hdesired⟩
  cases at' with
  | idle => trivial
  | enqCounter => trivial
  | deqCounter => trivial
  | enqHead => exact Guarded.imp h hcommits fun _ => id
  | enqHeadAgain =>
    apply Guarded.imp h hcommits
    rw [hhead]
    exact fun _ => id
  | enqTail =>
    apply Guarded.imp h hcommits
    rw [hhead]
    exact fun _ => id
  | enqTailAgain =>
    apply Guarded.imp h hcommits
    rw [hhead, htail]
    exact fun _ => id
  | enqSwap =>
    apply Guarded.imp h hcommits
    rw [hhead, htail]
    exact fun _ => id
  | deqHead => exact Guarded.imp h hcommits fun _ => id
  | deqLoad =>
    apply Guarded.imp h hcommits
    rw [hhead]
    exact fun _ => id
  | deqTail => exact htail' h
  | deqSwap =>
    apply Guarded.imp h hcommits
    rintro - ⟨hcurrent, hdesired, hlast⟩
    rw [hhead, htail, hnext _ hcurrent]
    exact ⟨hcurrent, hdesired, hlast⟩

/-- The counter is as it was read, so there has been no commit since. -/
theorem Guarded.current {s : State T} {c n : ℕ} {known : Prop} (h : Guarded LONG_MAX s c n known)
    (hcounter : s.counter = counterOf LONG_MAX s.commits.length) (heq : s.counter = c)
    (hlt : s.commits.length < n + LONG_MAX) : known := by
  obtain ⟨hread, hle, hknown⟩ := h
  apply hknown
  apply counterOf_inj hle hlt
  rw [← hcounter, heq, hread]

/-! The steps -/

theorem enqueued_enqueue (commits : List Commit) (e : ℕ) :
    enqueued (commits ++ [.enqueue e]) = enqueued commits ++ [e] := by
  simp [enqueued]

theorem enqueued_dequeue (commits : List Commit) (e : ℕ) :
    enqueued (commits ++ [.dequeue e]) = enqueued commits := by
  simp [enqueued]

theorem dequeued_enqueue (commits : List Commit) (e : ℕ) :
    dequeued (commits ++ [.enqueue e]) = dequeued commits := by
  simp [dequeued]

theorem dequeued_dequeue (commits : List Commit) (e : ℕ) :
    dequeued (commits ++ [.dequeue e]) = dequeued commits ++ [e] := by
  simp [dequeued]

section Steps

variable [DecidableEq T] {s : State T} {t : T} {elements elements' : List ℕ}

@[simp] theorem goto_threads_self (s : State T) (t : T) (at' : ThreadState) :
    (s.goto t at').threads t = at' := by
  simp [State.goto]

theorem goto_threads_of_ne (s : State T) {t t' : T} (at' : ThreadState) (hne : t' ≠ t) :
    (s.goto t at').threads t' = s.threads t' := by
  simp [State.goto, hne]

/-- A step that only loads: the thread goes on with what it has read. -/
theorem Inv.goto {at' : ThreadState} (h : Inv LONG_MAX s elements)
    (hthread : ThreadInv LONG_MAX s at')
    (henqueuing : ∀ e, enqueuing at' = some e → enqueuing (s.threads t) = some e) :
    Inv LONG_MAX (s.goto t at') elements := by
  have hsub : ∀ t' e, enqueuing ((s.goto t at').threads t') = some e →
      enqueuing (s.threads t') = some e := by
    intro t' e he
    by_cases heq : t' = t
    · subst heq
      rw [goto_threads_self] at he
      exact henqueuing e he
    · rwa [goto_threads_of_ne s at' heq] at he
  constructor
  case chain => exact h.chain
  case tail => exact h.tail
  case counter => exact h.counter
  case order => exact h.order
  case tame => exact h.tame
  case threads =>
    intro t'
    have hold : ThreadInv LONG_MAX s ((s.goto t at').threads t') := by
      by_cases heq : t' = t
      · subst heq
        rwa [goto_threads_self]
      · rw [goto_threads_of_ne s at' heq]
        exact h.threads t'
    exact hold.setNext rfl rfl rfl fun _ _ => rfl
  case out =>
    intro t' e he
    exact h.out t' e (hsub t' e he)
  case owner =>
    intro t₁ t₂ e he₁ he₂
    exact h.owner t₁ t₂ e (hsub t₁ e he₁) (hsub t₂ e he₂)

/-- The element is not in the queue, so that ending it changes nothing there. -/
theorem Inv.enqueue {e : ℕ} (h : Inv LONG_MAX s elements) (hfree : s.Free e) :
    Inv LONG_MAX ((s.setNext e none).goto t (.enqCounter e)) elements := by
  obtain ⟨hreaches, hnone⟩ := hfree
  have hmem : e ∉ elements := fun he => hreaches ((reaches_iff h.chain e).mpr he)
  have hcase : ∀ t' e', enqueuing (((s.setNext e none).goto t (.enqCounter e)).threads t') = some e' →
      (t' = t ∧ e' = e) ∨ (enqueuing (s.threads t') = some e' ∧ e' ≠ e) := by
    intro t' e' he
    by_cases heq : t' = t
    · subst heq
      rw [goto_threads_self] at he
      exact .inl ⟨rfl, (Option.some.inj he).symm⟩
    · rw [goto_threads_of_ne _ _ heq] at he
      have hne : e' ≠ e := fun h' => hnone t' (h' ▸ he)
      exact .inr ⟨he, hne⟩
  constructor
  case chain => exact h.chain.update_of_notMem hmem
  case tail => exact h.tail
  case counter => exact h.counter
  case order => exact h.order
  case tame => exact h.tame
  case threads =>
    intro t'
    by_cases heq : t' = t
    · subst heq
      rw [goto_threads_self]
      trivial
    · rw [goto_threads_of_ne _ _ heq]
      have hold : ThreadInv LONG_MAX s ((s.setNext e none).threads t') := h.threads t'
      have hnext : ∀ first, s.head = some first → Function.update s.next e none first = s.next first := by
        intro first hfirst
        apply Function.update_of_ne
        rintro rfl
        apply hreaches
        rw [hfirst]
        exact .here first
      exact hold.setNext rfl rfl rfl hnext
  case out =>
    intro t' e' he
    cases hcase t' e' he with
    | inl hown =>
      obtain ⟨-, rfl⟩ := hown
      have hend : Function.update s.next e' none e' = none := by
        rw [Function.update_self]
      exact ⟨hmem, hend⟩
    | inr hother =>
      obtain ⟨hold, hne⟩ := hother
      obtain ⟨hnotin, hend⟩ := h.out t' e' hold
      have hnext : Function.update s.next e none e' = none := by
        rw [Function.update_of_ne hne, hend]
      exact ⟨hnotin, hnext⟩
  case owner =>
    intro t₁ t₂ e' he₁ he₂
    cases hcase t₁ e' he₁ with
    | inl hown₁ =>
      cases hcase t₂ e' he₂ with
      | inl hown₂ => rw [hown₁.1, hown₂.1]
      | inr hother₂ => exact absurd hown₁.2 hother₂.2
    | inr hother₁ =>
      cases hcase t₂ e' he₂ with
      | inl hown₂ => exact absurd hown₂.2 hother₁.2
      | inr hother₂ => exact h.owner t₁ t₂ e' hother₁.1 hother₂.1

/-- What a commit has to bring about; the other threads then know nothing any more. -/
theorem Inv.commit {k : Commit} (h : Inv LONG_MAX s elements) (s' : State T) (hmax : 0 < LONG_MAX)
    (hcommits : s'.commits = s.commits) (hthreads : s'.threads = s.threads)
    (hchain : Chain s'.next s'.head elements') (htail : s'.tail = elements'.getLast?)
    (horder : enqueued (s.commits ++ [k]) = dequeued (s.commits ++ [k]) ++ elements')
    (htame : s'.wild = false)
    (hout : ∀ t' e, t' ≠ t → enqueuing (s.threads t') = some e →
      e ∉ elements' ∧ s'.next e = none) :
    Inv LONG_MAX ((s'.commit (newCounter LONG_MAX s.counter) k).goto t .idle) elements' := by
  have hsub : ∀ t' e, enqueuing (((s'.commit (newCounter LONG_MAX s.counter) k).goto t .idle).threads
      t') = some e → t' ≠ t ∧ enqueuing (s.threads t') = some e := by
    intro t' e he
    by_cases heq : t' = t
    · subst heq
      rw [goto_threads_self] at he
      cases he
    · rw [goto_threads_of_ne _ _ heq] at he
      rw [← hthreads]
      exact ⟨heq, he⟩
  have hlength : (s'.commit (newCounter LONG_MAX s.counter) k).commits.length =
      s.commits.length + 1 := by
    simp [State.commit, hcommits]
  constructor
  case chain => exact hchain
  case tail => exact htail
  case counter =>
    have hnew := newCounter_counterOf hmax s.commits.length
    rw [← h.counter] at hnew
    rw [← hlength] at hnew
    exact hnew
  case order =>
    rw [← hcommits] at horder
    exact horder
  case tame => exact htame
  case threads =>
    intro t'
    by_cases heq : t' = t
    · subst heq
      rw [goto_threads_self]
      trivial
    · rw [goto_threads_of_ne _ _ heq]
      have hold := h.threads t'
      rw [← hthreads] at hold
      exact hold.commit hlength
  case out =>
    intro t' e he
    obtain ⟨hne, hold⟩ := hsub t' e he
    exact hout t' e hne hold
  case owner =>
    intro t₁ t₂ e he₁ he₂
    exact h.owner t₁ t₂ e (hsub t₁ e he₁).2 (hsub t₂ e he₂).2

theorem Inv.enqSwap {e c n : ℕ} {desiredQHead : Option ℕ} {thing3 : Thing3}
    (h : Inv LONG_MAX s elements) (hmax : 0 < LONG_MAX) (hnowrap : NoWrap LONG_MAX s)
    (ht : s.threads t = .enqSwap e c n desiredQHead thing3) (heq : s.counter = c) :
    Inv LONG_MAX (((s.storeEnqueue e desiredQHead thing3).commit (newCounter LONG_MAX c)
      (.enqueue e)).goto t .idle) (elements ++ [e]) := by
  have hguarded := h.threads t
  rw [ht] at hguarded
  have hlt : s.commits.length < n + LONG_MAX := hnowrap t n (by rw [ht]; rfl)
  obtain ⟨hdesired, hthing3⟩ := Guarded.current hguarded h.counter heq hlt
  have henqueuing : enqueuing (s.threads t) = some e := by rw [ht]; rfl
  obtain ⟨hnotin, hend⟩ := h.out t e henqueuing
  have horder : enqueued (s.commits ++ [.enqueue e]) =
      dequeued (s.commits ++ [.enqueue e]) ++ (elements ++ [e]) := by
    rw [enqueued_enqueue, dequeued_enqueue, h.order, List.append_assoc]
  have hnotin' : ∀ t' e', t' ≠ t → enqueuing (s.threads t') = some e' → e' ∉ elements ++ [e] := by
    intro t' e' hne he' hmem
    cases List.mem_append.mp hmem with
    | inl hold => exact (h.out t' e' he').1 hold
    | inr hnew =>
      apply hne
      apply h.owner t' t e _ henqueuing
      rw [he', List.mem_singleton.mp hnew]
  rw [← heq]
  cases elements.eq_nil_or_concat with
  | inl hnil =>
    -- The queue is empty: the element becomes its head, and its tail twice.
    subst hnil
    have hhead : s.head = none := chain_nil.mp h.chain
    have htail : s.tail = none := h.tail
    rw [hhead] at hdesired
    rw [htail] at hthing3
    subst hdesired
    subst hthing3
    have hchain : Chain s.next (some e) [e] := by
      rw [chain_cons, hend]
      exact ⟨rfl, rfl⟩
    apply h.commit (s.storeEnqueue e (some e) .tail) hmax rfl rfl hchain rfl horder h.tame
    intro t' e' hne he'
    exact ⟨hnotin' t' e' hne he', (h.out t' e' he').2⟩
  | inr hconcat =>
    obtain ⟨front, last, rfl⟩ := hconcat
    rw [List.concat_eq_append] at *
    have htail : s.tail = some last := by rw [h.tail, List.getLast?_concat]
    have hhead : s.head.or (some e) = s.head := by
      rw [← h.chain.head?_eq]
      cases front <;> rfl
    rw [hhead] at hdesired
    rw [htail] at hthing3
    subst hdesired
    subst hthing3
    have hchain : Chain (Function.update s.next last (some e)) s.head (front ++ [last] ++ [e]) := by
      rw [List.append_assoc]
      exact h.chain.snoc hnotin hend
    apply h.commit (s.storeEnqueue e s.head (.next (some last))) hmax rfl rfl hchain _ horder h.tame
    · intro t' e' hne he'
      obtain ⟨hout, hnext⟩ := h.out t' e' he'
      have hlast : e' ≠ last := by
        rintro rfl
        exact hout (List.mem_append_right front List.mem_cons_self)
      have hsame : Function.update s.next last (some e) e' = none := by
        rw [Function.update_of_ne hlast, hnext]
      exact ⟨hnotin' t' e' hne he', hsame⟩
    · rw [List.getLast?_concat]
      rfl

theorem Inv.deqSwap {c n currentHead : ℕ} {desiredQHead desiredQTail : Option ℕ}
    (h : Inv LONG_MAX s elements) (hmax : 0 < LONG_MAX) (hnowrap : NoWrap LONG_MAX s)
    (ht : s.threads t = .deqSwap c n currentHead desiredQHead desiredQTail)
    (heq : s.counter = c) :
    ∃ rest, Inv LONG_MAX (((s.storeDequeue currentHead desiredQHead desiredQTail).commit
      (newCounter LONG_MAX c) (.dequeue currentHead)).goto t .idle) rest := by
  have hguarded := h.threads t
  rw [ht] at hguarded
  have hlt : s.commits.length < n + LONG_MAX := hnowrap t n (by rw [ht]; rfl)
  obtain ⟨hcurrent, hdesired, htail⟩ := Guarded.current hguarded h.counter heq hlt
  cases elements with
  | nil =>
    have hhead : s.head = none := chain_nil.mp h.chain
    rw [hhead] at hcurrent
    cases hcurrent
  | cons first rest =>
    have hhead := h.chain.1
    rw [hhead] at hcurrent
    obtain rfl := Option.some.inj hcurrent
    have hrest := h.chain.2
    have hnodup := h.chain.nodup
    have hnotin : first ∉ rest := (List.nodup_cons.mp hnodup).1
    have horder : enqueued (s.commits ++ [.dequeue first]) =
        dequeued (s.commits ++ [.dequeue first]) ++ rest := by
      rw [enqueued_dequeue, dequeued_dequeue, h.order, List.append_assoc]
      rfl
    have hlast : desiredQTail = rest.getLast? := by
      rw [htail, hdesired, h.tail, ← hrest.head?_eq]
      cases rest with
      | nil => rfl
      | cons second rest => exact if_pos (by simp)
    use rest
    rw [← heq]
    subst hdesired
    apply h.commit (s.storeDequeue first (s.next first) desiredQTail) hmax rfl rfl
      (hrest.update_of_notMem hnotin) hlast horder h.tame
    intro t' e _ he
    obtain ⟨hout, hnext⟩ := h.out t' e he
    have hne : e ≠ first := fun heq => hout (heq ▸ List.mem_cons_self)
    have hsame : Function.update s.next first none e = none := by
      rw [Function.update_of_ne hne, hnext]
    exact ⟨fun hmem => hout (List.mem_cons_of_mem first hmem), hsame⟩

omit [DecidableEq T] in
theorem guarded_now (h : Inv LONG_MAX s elements) :
    Guarded LONG_MAX s s.counter s.commits.length True :=
  ⟨h.counter, le_rfl, fun _ => trivial⟩

theorem step_inv {s' : State T} (hmax : 0 < LONG_MAX) (h : Inv LONG_MAX s elements)
    (hnowrap : NoWrap LONG_MAX s) (hstep : Step LONG_MAX s s') :
    ∃ elements', Inv LONG_MAX s' elements' := by
  have hthread : ∀ {t : T} {at' : ThreadState}, s.threads t = at' → ThreadInv LONG_MAX s at' := by
    rintro t at' rfl
    exact h.threads t
  have hkeep : ∀ {t : T} {at' at'' : ThreadState}, s.threads t = at' → enqueuing at'' = enqueuing at' →
      ∀ e, enqueuing at'' = some e → enqueuing (s.threads t) = some e := by
    rintro t at' at'' rfl heq e he
    rw [← heq, he]
  cases hstep with
  | enqueue t e hidle hfree => exact ⟨elements, h.enqueue hfree⟩
  | enqCounter ht => exact ⟨elements, h.goto (guarded_now h) (hkeep ht rfl)⟩
  | @enqHeadNull t e c n ht hnull =>
    have hguarded : Guarded LONG_MAX s c n (some e = s.head.or (some e)) := by
      apply Guarded.imp (hthread ht) rfl
      intro _ _
      rw [hnull]
      rfl
    exact ⟨elements, h.goto hguarded (hkeep ht rfl)⟩
  | @enqHead t e c n ht hnull =>
    have hguarded : Guarded LONG_MAX s c n (s.head ≠ none) :=
      Guarded.imp (hthread ht) rfl fun _ _ => hnull
    exact ⟨elements, h.goto hguarded (hkeep ht rfl)⟩
  | @enqHeadAgain t e c n ht =>
    have hguarded : Guarded LONG_MAX s c n (s.head = s.head.or (some e)) := by
      apply Guarded.imp (hthread ht) rfl
      intro _ hhead
      cases hfirst : s.head with
      | none => exact absurd hfirst hhead
      | some first => rfl
    exact ⟨elements, h.goto hguarded (hkeep ht rfl)⟩
  | @enqTail t e c n desiredQHead ht =>
    have hguarded : Guarded LONG_MAX s c n (desiredQHead = s.head.or (some e) ∧ s.tail = s.tail) :=
      Guarded.imp (hthread ht) rfl fun _ hdesired => ⟨hdesired, rfl⟩
    exact ⟨elements, h.goto hguarded (hkeep ht rfl)⟩
  | @enqTailAgain t e c n desiredQHead last ht =>
    have hguarded : ThreadInv LONG_MAX s
        (.enqSwap e c n desiredQHead (if s.tail ≠ none then .next last else .tail)) := by
      apply Guarded.imp (hthread ht) rfl
      intro _ ⟨hdesired, hlast⟩
      rw [hlast]
      exact ⟨hdesired, rfl⟩
    exact ⟨elements, h.goto hguarded (hkeep ht rfl)⟩
  | @enqSwap t e c n desiredQHead thing3 ht heq =>
    exact ⟨elements ++ [e], h.enqSwap hmax hnowrap ht heq⟩
  | enqSwapFails ht hne => exact ⟨elements, h.goto (guarded_now h) (hkeep ht rfl)⟩
  | dequeue t hidle => exact ⟨elements, h.goto trivial (hkeep hidle rfl)⟩
  | deqCounter ht => exact ⟨elements, h.goto (guarded_now h) (hkeep ht rfl)⟩
  | deqHeadNull ht hnull => exact ⟨elements, h.goto trivial (hkeep ht rfl)⟩
  | @deqHead t c n currentHead ht hhead =>
    have hguarded : Guarded LONG_MAX s c n (s.head = some currentHead) :=
      Guarded.imp (hthread ht) rfl fun _ _ => hhead
    exact ⟨elements, h.goto hguarded (hkeep ht rfl)⟩
  | @deqLoad t c n currentHead ht heq =>
    have hguarded : Guarded LONG_MAX s c n
        (s.head = some currentHead ∧ s.next currentHead = s.next currentHead) :=
      Guarded.imp (hthread ht) rfl fun _ hcurrent => ⟨hcurrent, rfl⟩
    exact ⟨elements, h.goto hguarded (hkeep ht rfl)⟩
  | deqLoadFails ht hne => exact ⟨elements, h.goto (guarded_now h) (hkeep ht rfl)⟩
  | @deqTail t c n currentHead desiredQHead ht =>
    have hguarded : ThreadInv LONG_MAX s (.deqSwap c n currentHead desiredQHead
        (if desiredQHead ≠ none then s.tail else none)) :=
      Guarded.imp (hthread ht) rfl fun _ hknown => ⟨hknown.1, hknown.2, rfl⟩
    exact ⟨elements, h.goto hguarded (hkeep ht rfl)⟩
  | deqSwap ht heq => exact h.deqSwap hmax hnowrap ht heq
  | deqSwapFails ht hne => exact ⟨elements, h.goto (guarded_now h) (hkeep ht rfl)⟩

omit [DecidableEq T] in
theorem makeQueue_inv (next : ℕ → Option ℕ) : Inv LONG_MAX (makeQueue T next) [] := by
  constructor
  case chain => rfl
  case tail => rfl
  case counter => simp [makeQueue, counterOf]
  case order => rfl
  case tame => rfl
  case threads => exact fun _ => trivial
  case out => exact nofun
  case owner => exact nofun

end Steps

variable [DecidableEq T]

theorem run_inv {s : State T} {next : ℕ → Option ℕ} (hmax : 0 < LONG_MAX)
    (hrun : Run LONG_MAX (makeQueue T next) s) :
    NoWrap LONG_MAX s ∧ ∃ elements, Inv LONG_MAX s elements := by
  induction hrun with
  | refl => exact ⟨nofun, [], makeQueue_inv next⟩
  | tail h hstep hnowrap ih =>
    obtain ⟨hbefore, elements, hinv⟩ := ih
    exact ⟨hnowrap, step_inv hmax hinv hbefore hstep⟩

/-- At every moment of every run, what was put in is, in this order, what was taken out and what is
in the queue, where `next` leads from the head to the tail and ends there. -/
theorem run_order {LONG_MAX : ℕ} {s : State T} {next : ℕ → Option ℕ} (hmax : 0 < LONG_MAX)
    (hrun : Run LONG_MAX (makeQueue T next) s) :
    ∃ elements, enqueued s.commits = dequeued s.commits ++ elements ∧
      Chain s.next s.head elements ∧ s.tail = elements.getLast? ∧
      (s.head = none ↔ s.tail = none) ∧ s.wild = false := by
  obtain ⟨-, elements, h⟩ := run_inv hmax hrun
  have hempty : s.head = none ↔ s.tail = none := by
    rw [h.tail, ← h.chain.head?_eq, List.head?_eq_none_iff, List.getLast?_eq_none_iff]
  exact ⟨elements, h.order, h.chain, h.tail, hempty, h.tame⟩

omit [DecidableEq T] in
theorem noWrap_of_lt {s : State T} (hlt : s.commits.length < LONG_MAX) : NoWrap LONG_MAX s :=
  fun _ n _ => Nat.lt_add_left n hlt

/-- An element goes in and out again; both threads run the path without a retry. -/
theorem run_order_enqueue_dequeue : ∃ s : State Bool, s.commits = [.enqueue 1, .dequeue 1] ∧
    ∃ elements, enqueued s.commits = dequeued s.commits ++ elements ∧
      Chain s.next s.head elements ∧ s.tail = elements.getLast? ∧
      (s.head = none ↔ s.tail = none) ∧ s.wild = false := by
  have hfree : (makeQueue Bool fun _ => none).Free 1 := ⟨nofun, nofun⟩
  have h₁ := Run.tail Run.refl (Step.enqueue false 1 rfl hfree)
    (noWrap_of_lt (by decide : 0 < 9223372036854775807))
  have h₂ := h₁.tail (.enqCounter (t := false) rfl) (noWrap_of_lt (by decide))
  have h₃ := h₂.tail (.enqHeadNull (t := false) rfl rfl) (noWrap_of_lt (by decide))
  have h₄ := h₃.tail (.enqTail (t := false) rfl) (noWrap_of_lt (by decide))
  have h₅ := h₄.tail (.enqTailAgain (t := false) rfl) (noWrap_of_lt (by decide))
  have h₆ := h₅.tail (.enqSwap (t := false) rfl rfl) (noWrap_of_lt (by decide))
  have h₇ := h₆.tail (.dequeue true rfl) (noWrap_of_lt (by decide))
  have h₈ := h₇.tail (.deqCounter (t := true) rfl) (noWrap_of_lt (by decide))
  have h₉ := h₈.tail (.deqHead (t := true) rfl rfl) (noWrap_of_lt (by decide))
  have h₁₀ := h₉.tail (.deqLoad (t := true) rfl rfl) (noWrap_of_lt (by decide))
  have h₁₁ := h₁₀.tail (.deqTail (t := true) rfl) (noWrap_of_lt (by decide))
  have h₁₂ := h₁₁.tail (.deqSwap (t := true) rfl rfl) (noWrap_of_lt (by decide))
  exact ⟨_, rfl, run_order (by decide) h₁₂⟩

end LockFreeQueue
end ZoweCommon
