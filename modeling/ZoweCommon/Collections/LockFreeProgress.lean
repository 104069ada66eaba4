import ZoweCommon.Collections.LockFreeOrder

/-! A thread starts an attempt again only when there has been a commit in the meantime. -/
namespace ZoweCommon
namespace LockFreeQueue

variable {T : Type} [DecidableEq T] {LONG_MAX : ℕ} {s s' : State T} {elements : List ℕ}

/-- The attempt in which a thread does a PLO, by the commits before it. -/
def atPLO : ThreadState → Option ℕ
  | .enqSwap _ _ n _ _ | .deqLoad _ n _ | .deqSwap _ n _ _ _ => some n
  | _ => none

/-- The PLO of a thread has failed, or it was a commit. -/
def EndsAttempt (t : T) (s s' : State T) : Prop :=
  ∃ n, atPLO (s.threads t) = some n ∧ seen (s'.threads t) ≠ some n

/-- The runs with the number of attempts that a thread has ended. -/
inductive AttemptRun (LONG_MAX : ℕ) (t : T) (s : State T) : State T → ℕ → Prop
  | refl : AttemptRun LONG_MAX t s s 0
  | goesOn {s₁ s₂ : State T} {attempts : ℕ} (h : AttemptRun LONG_MAX t s s₁ attempts)
      (hstep : Step LONG_MAX s₁ s₂) (hnowrap : NoWrap LONG_MAX s₂) (hends : ¬EndsAttempt t s₁ s₂) :
    AttemptRun LONG_MAX t s s₂ attempts
  | ends {s₁ s₂ : State T} {attempts : ℕ} (h : AttemptRun LONG_MAX t s s₁ attempts)
      (hstep : Step LONG_MAX s₁ s₂) (hnowrap : NoWrap LONG_MAX s₂) (hends : EndsAttempt t s₁ s₂) :
    AttemptRun LONG_MAX t s s₂ (attempts + 1)

/-- The commits before a thread last looked at the counter, or all of them. -/
def known (s : State T) (t : T) : ℕ := (seen (s.threads t)).getD s.commits.length

/-- What a step leaves to a thread that may have ended an attempt. -/
def Advances (t : T) (s s' : State T) : Prop :=
  known s t ≤ known s' t ∧ (EndsAttempt t s s' → known s t < known s' t)

theorem seen_of_atPLO {at' : ThreadState} {n : ℕ} (h : atPLO at' = some n) : seen at' = some n := by
  cases at' <;> first | exact h | cases h

omit [DecidableEq T] in
theorem Inv.seen_le (h : Inv LONG_MAX s elements) {t : T} {n : ℕ}
    (hseen : seen (s.threads t) = some n) : n ≤ s.commits.length := by
  have hthread := h.threads t
  cases hat : s.threads t <;> rw [hat] at hthread hseen <;> cases hseen <;> exact hthread.2.1

omit [DecidableEq T] in
theorem Inv.known_le (h : Inv LONG_MAX s elements) (t : T) : known s t ≤ s.commits.length := by
  rw [known]
  cases hseen : seen (s.threads t) with
  | none => exact Nat.le_refl _
  | some n => exact h.seen_le hseen

theorem advances_goto {s₀ : State T} {t' : T} {at' : ThreadState} (hthreads : s₀.threads = s.threads)
    (hcommits : s.commits.length ≤ s₀.commits.length)
    (hle : known s t' ≤ (seen at').getD s₀.commits.length)
    (hends : ∀ n, atPLO (s.threads t') = some n → seen at' ≠ some n →
      n < (seen at').getD s₀.commits.length) (t : T) : Advances t s (s₀.goto t' at') := by
  by_cases heq : t = t'
  · subst heq
    rw [Advances, EndsAttempt, known, known, goto_threads_self]
    refine ⟨hle, fun ⟨n, hn, hne⟩ => ?_⟩
    rw [seen_of_atPLO hn]
    exact hends n hn hne
  · have hsame := (goto_threads_of_ne s₀ at' heq).trans (congrFun hthreads t)
    constructor
    · rw [known, known, hsame]
      cases seen (s.threads t) with
      | none => exact hcommits
      | some n => exact Nat.le_refl n
    · rintro ⟨n, hn, hne⟩
      rw [hsame] at hne
      exact absurd (seen_of_atPLO hn) hne

theorem advances_retry {t' : T} {at' : ThreadState} {c n : ℕ} {p : Prop}
    (h : Inv LONG_MAX s elements) (hplo : atPLO (s.threads t') = some n)
    (hguarded : Guarded LONG_MAX s c n p) (hne : s.counter ≠ c)
    (hat : seen at' = some s.commits.length) (t : T) : Advances t s (s.goto t' at') := by
  have hlt : n < s.commits.length := by
    refine Nat.lt_of_le_of_ne hguarded.2.1 fun heq => hne ?_
    rw [h.counter, hguarded.1, heq]
  refine advances_goto rfl (Nat.le_refl _) ?_ (fun m hm _ => ?_) t
  · rw [hat]
    exact h.known_le t'
  · rw [hat]
    exact Option.some.inj (hplo.symm.trans hm) ▸ hlt

theorem advances_commit {s₀ : State T} {t' : T} (counter : ℕ) (c : Commit)
    (h : Inv LONG_MAX s elements) (hthreads : s₀.threads = s.threads)
    (hcommits : s₀.commits = s.commits) (t : T) :
    Advances t s ((s₀.commit counter c).goto t' .idle) := by
  have hlength : (s₀.commit counter c).commits.length = s.commits.length + 1 := by
    rw [State.commit, List.length_append, hcommits, List.length_singleton]
  have hthreads' : (s₀.commit counter c).threads = s.threads := hthreads
  have hknown := h.known_le t'
  refine advances_goto hthreads' (by omega) (hknown.trans ?_) (fun m hm _ => ?_) t
  · exact hlength.ge.trans' (Nat.le_succ _)
  · exact (Nat.lt_succ_of_le (h.seen_le (seen_of_atPLO hm))).trans_eq hlength.symm

theorem step_advances (h : Inv LONG_MAX s elements) (hstep : Step LONG_MAX s s') (t : T) :
    Advances t s s' := by
  cases hstep
  case enqSwap t' e c n desiredQHead thing3 ht heq =>
    have hstored : (s.storeEnqueue e desiredQHead thing3).threads = s.threads ∧
        (s.storeEnqueue e desiredQHead thing3).commits = s.commits := by
      cases thing3 with
      | tail => exact ⟨rfl, rfl⟩
      | next last => cases last <;> exact ⟨rfl, rfl⟩
    exact advances_commit _ _ h hstored.1 hstored.2 t
  case deqSwap t' c n currentHead desiredQHead desiredQTail ht heq =>
    refine advances_commit _ _ h ?_ ?_ t
    · rfl
    · rfl
  case enqSwapFails t' e c n desiredQHead thing3 ht hne =>
    have hguarded := h.threads t'
    rw [ht] at hguarded
    exact advances_retry h (by rw [ht, atPLO]) hguarded hne rfl t
  case deqLoadFails t' c n currentHead ht hne =>
    have hguarded := h.threads t'
    rw [ht] at hguarded
    exact advances_retry h (by rw [ht, atPLO]) hguarded hne rfl t
  case deqSwapFails t' c n currentHead desiredQHead desiredQTail ht hne =>
    have hguarded := h.threads t'
    rw [ht] at hguarded
    exact advances_retry h (by rw [ht, atPLO]) hguarded hne rfl t
  case deqHeadNull t' c n ht hnull =>
    exact advances_goto rfl (Nat.le_refl _) (h.known_le t') (by simp [ht, atPLO]) t
  -- In all other steps the thread has not looked at the counter before, or it goes on.
  all_goals
    exact advances_goto rfl (Nat.le_refl _) (by simp [known, seen, *]) (by simp [atPLO, seen, *]) t

theorem attempts_le {t : T} {attempts : ℕ} {next : ℕ → Option ℕ} (hmax : 0 < LONG_MAX)
    (hrun : AttemptRun LONG_MAX t (makeQueue T next) s attempts) :
    attempts ≤ s.commits.length := by
  have hall : (NoWrap LONG_MAX s ∧ ∃ elements, Inv LONG_MAX s elements) ∧ attempts ≤ known s t := by
    induction hrun with
    | refl => exact ⟨⟨nofun, [], makeQueue_inv next⟩, Nat.zero_le _⟩
    | goesOn h hstep hnowrap hends ih =>
      obtain ⟨⟨hbefore, elements, hinv⟩, hle⟩ := ih
      exact ⟨⟨hnowrap, step_inv hmax hinv hbefore hstep⟩,
        Nat.le_trans hle (step_advances hinv hstep t).1⟩
    | ends h hstep hnowrap hends ih =>
      obtain ⟨⟨hbefore, elements, hinv⟩, hle⟩ := ih
      exact ⟨⟨hnowrap, step_inv hmax hinv hbefore hstep⟩,
        Nat.lt_of_le_of_lt hle ((step_advances hinv hstep t).2 hends)⟩
  obtain ⟨⟨-, elements, hinv⟩, hle⟩ := hall
  exact Nat.le_trans hle (hinv.known_le t)

/-- An element is put in after a thread has looked at the counter, and before it takes one out. -/
theorem attempts_le_retry : ∃ s : State Bool,
    AttemptRun 9223372036854775807 false (makeQueue Bool fun _ => none) s 1 ∧
      s.commits = [.enqueue 2] ∧ 1 ≤ s.commits.length := by
  have hfree : ((makeQueue Bool fun _ => none).goto false .deqCounter |>.goto false
      (.deqHead 1 0)).Free 2 := ⟨nofun, fun t => by cases t <;> nofun⟩
  have h₀ : AttemptRun 9223372036854775807 false (makeQueue Bool fun _ => none) _ 0 := .refl
  have h₁ := h₀.goesOn (.dequeue false rfl) (noWrap_of_lt (by decide)) nofun
  have h₂ := h₁.goesOn (.deqCounter (t := false) rfl) (noWrap_of_lt (by decide)) nofun
  have h₃ := h₂.goesOn (.enqueue true 2 rfl hfree) (noWrap_of_lt (by decide)) nofun
  have h₄ := h₃.goesOn (.enqCounter (t := true) rfl) (noWrap_of_lt (by decide)) nofun
  have h₅ := h₄.goesOn (.enqHeadNull (t := true) rfl rfl) (noWrap_of_lt (by decide)) nofun
  have h₆ := h₅.goesOn (.enqTail (t := true) rfl) (noWrap_of_lt (by decide)) nofun
  have h₇ := h₆.goesOn (.enqTailAgain (t := true) rfl) (noWrap_of_lt (by decide)) nofun
  have h₈ := h₇.goesOn (.enqSwap (t := true) rfl rfl) (noWrap_of_lt (by decide)) nofun
  have h₉ := h₈.goesOn (.deqHead (t := false) rfl rfl) (noWrap_of_lt (by decide)) nofun
  have h₁₀ := h₉.ends (.deqLoadFails (t := false) rfl (by decide)) (noWrap_of_lt (by decide))
    ⟨0, rfl, nofun⟩
  exact ⟨_, h₁₀, rfl, attempts_le (by decide) h₁₀⟩

end LockFreeQueue
end ZoweCommon
