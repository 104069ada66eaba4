import ZoweCommon.Http.ConversationClose

/-! A close that is due is carried out. -/
namespace ZoweCommon
namespace Http

open HttpConversationSerialize

theorem Serialize.step_next {subtaskTerm : Bool} {word compare : HttpConversationSerialize}
    {at' : Serialize} (h : (at'.step subtaskTerm word).next = some (.swap compare)) :
    compare = word ∧ (at'.step subtaskTerm word).word = word := by
  cases at' with
  | load =>
    simp only [Serialize.step, Option.some.injEq, Serialize.swap.injEq] at h
    exact ⟨h.symm, rfl⟩
  | enqueue => simp [Serialize.step] at h
  | swap before =>
    simp only [Serialize.step] at h ⊢
    split_ifs at h ⊢
    · exact absurd h (by simp)
    · simp only [Option.some.injEq, Serialize.swap.injEq] at h
      exact ⟨h.symm, rfl⟩

/-- Nothing is to be changed, or the word is changed, or the word was changed by another. -/
theorem Serialize.step_swap (subtaskTerm : Bool) (word compare : HttpConversationSerialize) :
    (compare = compare.replace subtaskTerm ∧
        ((Serialize.swap compare).step subtaskTerm word).word = word) ∨
      (word = compare ∧
        ((Serialize.swap compare).step subtaskTerm word).word = compare.replace subtaskTerm) ∨
      ((Serialize.swap compare).step subtaskTerm word).next = some (.swap word) := by
  simp only [Serialize.step]
  split_ifs with hsame hword
  · exact .inl ⟨hsame, rfl⟩
  · exact .inr (.inl ⟨hword, rfl⟩)
  · exact .inr (.inl ⟨hword, rfl⟩)
  · exact .inr (.inr rfl)

namespace Conversation

/-- The close was considered, or it is being considered. -/
def Updating (s : Conversation) : Prop :=
  s.main = .serialize .load ∨ ∃ compare, s.main = .serialize (.swap compare)

/-- What is known of a close that is due. -/
structure Raised (s : Conversation) : Prop where
  still : s.word.considerCloseEnqueued = true → s.word.runningTasks = 0
  considered : s.considered = true → s.word.shouldClose = true ∧
    (s.word.considerCloseEnqueued = true ∨ s.word.runningTasks ≠ 0 ∨ Updating s)
  update : ∀ at', s.main = .serialize at' → s.word.shouldClose = true
  compare : ∀ compare, s.main = .serialize (.swap compare) → compare.shouldClose = true ∧
    (compare.runningTasks ≠ 0 ∨ compare.considerCloseEnqueued = true →
      s.word.runningTasks ≠ 0 ∨ s.word.considerCloseEnqueued = true)
  waits : s.word.considerCloseEnqueued = true → 0 < s.considering ∨ s.closing = true
  sent : s.closeSent = true → WorkElement.CLOSE_CONVERSATION ∈ s.queue ∨ s.closes ≠ 0

theorem raised_make : Raised makeHttpConversation where
  still := nofun
  considered := nofun
  update := nofun
  compare := nofun
  waits := nofun
  sent := nofun

/-- A close that is due has been carried out when nothing is left to be done. -/
def CloseDone (s : Conversation) : Prop :=
  s.word.shouldClose = true → s.considered = true → s.tasks = [] → s.queue = [] →
    s.main = .idle → s.closes = 1

theorem Raised.closeDone {s : Conversation} (hr : Raised s) (hc : Counted s) : CloseDone s := by
  intro _ hconsidered htasks hqueue hmain
  have hnone : s.word.runningTasks = 0 := by
    have hruns := hc.runs
    rw [running, htasks, hmain] at hruns
    exact BitVec.eq_of_toNat_eq hruns
  have hflag : s.word.considerCloseEnqueued = true := by
    rcases (hr.considered hconsidered).2 with hflag | hsome | hload | ⟨compare, hswap⟩
    · exact hflag
    · exact absurd hnone hsome
    · exact absurd (hmain.symm.trans hload) (by simp)
    · exact absurd (hmain.symm.trans hswap) (by simp)
  have hclosing : s.closing = true := by
    rcases hr.waits hflag with hpos | hclosing
    · rw [considering, htasks, hqueue, hmain] at hpos
      exact absurd hpos (Nat.lt_irrefl 0)
    · exact hclosing
  have hsent : s.closeSent = true := by
    rw [closing, hmain] at hclosing
    rw [closeSent, hmain]
    exact hclosing
  have hopen : s.closes ≠ 0 := by
    rcases hr.sent hsent with hmem | hopen
    · rw [hqueue] at hmem
      exact absurd hmem List.not_mem_nil
    · exact hopen
  have hcloses := hc.closes
  have hone := Bool.toNat_le s.closeSent
  omega

theorem Raised.leaves {s s' : Conversation} (hr : Raised s) (h : Leaves s s') : Raised s' := by
  obtain ⟨hruns, hflag, hclose, hshould, -, hconsidering, hclosing, hsent, hqueue⟩ := h.counts
  obtain ⟨-, hserialize, -⟩ := h.main.cases
  obtain ⟨-, hserialize', -⟩ := h.main'.cases
  constructor
  · rw [hflag, hruns]
    exact hr.still
  · intro hconsidered
    rw [hflag, hruns]
    rcases h.considered with hsame | hload
    · rw [hsame] at hconsidered
      obtain ⟨hbefore, hcases⟩ := hr.considered hconsidered
      refine ⟨hshould hbefore, ?_⟩
      rcases hcases with hset | hsome | hload | ⟨compare, hswap⟩
      · exact .inl hset
      · exact .inr (.inl hsome)
      · exact absurd hload (hserialize _)
      · exact absurd hswap (hserialize _)
    · exact ⟨(hserialize' _ hload).2, .inr (.inr (.inl hload))⟩
  · exact fun at' hat => (hserialize' at' hat).2
  · exact fun compare hat => absurd (hserialize' _ hat).1 nofun
  · rw [hflag, hconsidering, hclosing]
    exact hr.waits
  · rw [hsent, h.closes]
    intro hsent'
    rcases hr.sent hsent' with hmem | hopen
    · left
      rw [← List.count_pos_iff, hqueue]
      exact List.count_pos_iff.mpr hmem
    · exact .inr hopen

theorem Counted.flag_of_considering {s : Conversation} (hs : Counted s)
    (h : 0 < s.considering ∨ s.closing = true) : s.word.considerCloseEnqueued = true := by
  have hconsiders := hs.considers
  have hpos : 0 < s.considering + s.closing.toNat := by
    rcases h with hpos | hclosing
    · omega
    · rw [hclosing, Bool.toNat_true]
      omega
  cases hflag : s.word.considerCloseEnqueued with
  | true => rfl
  | false =>
    rw [hflag, Bool.toNat_false] at hconsiders
    omega

theorem considering_of_head {s : Conversation} {queue : List WorkElement}
    (hqueue : s.queue = .CONSIDER_CLOSE_CONVERSATION :: queue) : 0 < s.considering := by
  rw [considering, hqueue, List.count_cons_self]
  omega

/-- The updates of the word are over or have not begun. -/
theorem Raised.considered_outside {s : Conversation} (hr : Raised s) (hcons : s.considered = true)
    (hmain : ∀ at', s.main ≠ .serialize at') : s.word.shouldClose = true ∧
      (s.word.considerCloseEnqueued = true ∨ s.word.runningTasks ≠ 0) := by
  obtain ⟨hshould, hcases⟩ := hr.considered hcons
  refine ⟨hshould, ?_⟩
  rcases hcases with hset | hsome | hload | ⟨compare, hswap⟩
  · exact .inl hset
  · exact .inr hsome
  · exact absurd hload (hmain _)
  · exact absurd hswap (hmain _)

theorem Raised.serialized {s s' : Conversation} (hr : Raised s) (hc : Counted s)
    {at' : Serialize} (hmain : s.main = .serialize at')
    (hword : s'.word = (at'.step false s.word).word)
    (hqueue : s'.queue = s.queue ++ (at'.step false s.word).enqueued)
    (hmain' : s'.main = resume (at'.step false s.word).next)
    (hrest : s'.tasks = s.tasks ∧ s'.closes = s.closes) : Raised s' := by
  obtain ⟨htasks, hcloses⟩ := hrest
  have hkeeps : (at'.step false s.word).Keeps false s.word at' := Serialize.step_keeps (by simp)
  have hmoved := considering_serialize hkeeps hmain hqueue hmain' htasks
  obtain ⟨-, hclose, hclosed, -, -, -⟩ := resume_cases (at'.step false s.word).next
  have hshould : s'.word.shouldClose = true := by
    rw [hword, hkeeps.shouldClose]
    exact hr.update at' hmain
  have hsame : s'.word.runningTasks = s.word.runningTasks := by
    rw [hword]
    exact BitVec.eq_of_toNat_eq hkeeps.held
  have hdue : s'.word.considerCloseEnqueued = true ∨ s.word.runningTasks ≠ 0 ∨ Updating s' := by
    cases at' with
    | load => exact .inr (.inr (.inr ⟨s.word, hmain'⟩))
    | enqueue =>
      left
      rw [hword]
      apply hkeeps.flagged
      apply hc.flag_of_considering
      left
      rw [considering, hmain, if_pos rfl]
      omega
    | swap compare =>
      obtain ⟨hasked, hcompare⟩ := hr.compare compare hmain
      rcases Serialize.step_swap false s.word compare with ⟨hnothing, hafter⟩ | ⟨hat, hafter⟩ | hnext
      · have hopen : compare.runningTasks ≠ 0 ∨ compare.considerCloseEnqueued = true := by
          by_contra hneither
          rw [not_or, not_not] at hneither
          have hraised : (compare.replace false).considerCloseEnqueued = true :=
            replace_raises hasked hneither.1
          rw [← hnothing] at hraised
          exact hneither.2 hraised
        rw [hword, hafter]
        exact (hcompare hopen).symm.imp_right .inl
      · by_cases hnone : s.word.runningTasks = 0
        · left
          rw [hword, hafter]
          apply replace_raises hasked
          rw [← hat]
          exact hnone
        · exact .inr (.inl hnone)
      · right
        right
        right
        exact ⟨s.word, by rw [hmain', hnext]; rfl⟩
  constructor
  · intro hset
    rw [hword] at hset
    cases hflag : s.word.considerCloseEnqueued with
    | true =>
      rw [hsame]
      exact hr.still hflag
    | false =>
      rw [hword]
      exact (hkeeps.considered hflag hset).1
  · rw [hsame]
    exact fun _ => ⟨hshould, hdue⟩
  · exact fun _ _ => hshould
  · intro compare hat
    have hnext : (at'.step false s.word).next = some (.swap compare) := by
      rw [hmain', resume] at hat
      cases hnext : (at'.step false s.word).next with
      | none =>
        rw [hnext] at hat
        exact absurd hat (by simp)
      | some next =>
        rw [hnext] at hat
        exact congrArg some (MainState.serialize.inj hat)
    obtain ⟨hcompare, hkept⟩ := Serialize.step_next hnext
    rw [hword, hkept, hcompare]
    exact ⟨hr.update at' hmain, id⟩
  · intro hset
    rw [← hword, hset] at hmoved
    rw [closing, hmain', decide_eq_false hclose, decide_eq_false hclosed, hword,
      hkeeps.closeEnqueued]
    cases hflag : s.word.considerCloseEnqueued with
    | true =>
      rcases hr.waits hflag with hpos | hclosing
      · left
        rw [hflag] at hmoved
        omega
      · right
        rw [closing, hmain] at hclosing
        exact hclosing
    | false =>
      left
      rw [hflag, Bool.toNat_true, Bool.toNat_false] at hmoved
      omega
  · intro hsent
    rw [closeSent, hmain', decide_eq_false hclosed, hword, hkeeps.closeEnqueued] at hsent
    rw [hqueue, hcloses]
    have hbefore : s.closeSent = true := by
      rw [closeSent, hmain]
      exact hsent
    exact (hr.sent hbefore).imp_left (List.mem_append_left _)

theorem Raised.closeStep {s s' : Conversation} (hr : Raised s) (hc : Counted s)
    (h : CloseStep s s') : Raised s' := by
  cases h with
  | considerReady hmain hqueue htasks hnot =>
    have hflag := hc.flag_of_considering (.inl (considering_of_head hqueue))
    constructor
    · exact fun _ => htasks
    · exact fun _ => ⟨hc.asked hflag, .inl hflag⟩
    · simp
    · simp
    · exact fun _ => .inr rfl
    · intro hsent
      exact absurd (hnot.symm.trans hsent) (by simp)
  | @considerNotReady queue hmain hqueue hready =>
    have hflag := hc.flag_of_considering (.inl (considering_of_head hqueue))
    constructor
    · exact hr.still
    · exact fun _ => ⟨hc.asked hflag, .inl hflag⟩
    · exact hr.update
    · exact hr.compare
    · intro _
      right
      have hclose : s.word.closeEnqueued = true := by
        by_contra hnot
        exact hready ⟨hr.still hflag, Bool.eq_false_iff.mpr hnot⟩
      simp [closing, hclose]
    · intro hsent
      rcases hr.sent hsent with hmem | hopen
      · rw [hqueue] at hmem
        have hne : WorkElement.CLOSE_CONVERSATION ≠ .CONSIDER_CLOSE_CONVERSATION := by simp
        exact .inl (List.mem_of_ne_of_mem hne hmem)
      · exact .inr hopen
  | enqueueClose hmain =>
    have houtside : ∀ at', s.main ≠ .serialize at' := by
      rw [hmain]
      simp
    constructor
    · exact hr.still
    · intro hcons
      obtain ⟨hshould, hcases⟩ := hr.considered_outside hcons houtside
      exact ⟨hshould, hcases.imp_right .inl⟩
    · simp
    · simp
    · exact fun _ => .inr rfl
    · exact fun _ => .inl (List.mem_append_right _ List.mem_cons_self)
  | closeEnqueued hmain =>
    have houtside : ∀ at', s.main ≠ .serialize at' := by
      rw [hmain]
      simp
    constructor
    · exact hr.still
    · intro hcons
      obtain ⟨hshould, hcases⟩ := hr.considered_outside hcons houtside
      exact ⟨hshould, hcases.imp_right .inl⟩
    · simp
    · simp
    · exact fun _ => .inr rfl
    · intro _
      apply hr.sent
      rw [closeSent, hmain]
      rfl
  | abandon hmain hqueue htasks =>
    have hsent := hc.sent_of_head hqueue
    have hflag := hc.flag_of_considering (.inr (closing_of_closeSent hsent))
    rw [hr.still hflag] at htasks
    exact absurd htasks (Int.lt_irrefl 0)
  | @close queue hmain hqueue htasks =>
    constructor
    · exact hr.still
    · exact hr.considered
    · exact hr.update
    · exact hr.compare
    · intro hflag
      rcases hr.waits hflag with hpos | hclosing
      · have hne : WorkElement.CLOSE_CONVERSATION ≠ .CONSIDER_CLOSE_CONVERSATION := by simp
        rw [considering, hqueue, List.count_cons_of_ne hne] at hpos
        exact .inl hpos
      · exact .inr hclosing
    · exact fun _ => .inr (Nat.succ_ne_zero _)
  | @serialize at' hmain =>
    exact hr.serialized hc hmain rfl rfl rfl ⟨rfl, rfl⟩

/-- A subtask may be started as long as no close is due. -/
def StartsBefore (s : Conversation) : Prop :=
  s.main = .startRunning (some s.word) → s.word.considerCloseEnqueued = false

theorem Raised.startStep {s s' : Conversation} (hr : Raised s) (h : StartStep s s')
    (hstarts : StartsBefore s) (hc' : Counted s') : Raised s' := by
  cases h with
  | startRunningLoad hmain => exact hr.leaves (leaves_starting hmain rfl)
  | startRunning hmain =>
    have hflag := hstarts hmain
    have hsome : s.word.runningTasks + 1 ≠ 0 := by
      intro hnone
      have hruns := hc'.runs
      simp only [running, if_true] at hruns
      rw [hnone] at hruns
      exact absurd hruns.symm (Nat.succ_ne_zero _)
    constructor
    · intro hset
      exact absurd (hflag.symm.trans hset) (by simp)
    · intro hcons
      exact ⟨(hr.considered hcons).1, .inr (.inl hsome)⟩
    · simp
    · simp
    · intro hset
      exact absurd (hflag.symm.trans hset) (by simp)
    · intro hsent
      apply hr.sent
      rw [closeSent, hmain]
      exact hsent
  | startRunningFails hmain hne => exact hr.leaves (leaves_starting hmain rfl)
  | startTask hmain =>
    have houtside : ∀ at', s.main ≠ .serialize at' := by
      rw [hmain]
      simp
    constructor
    · exact hr.still
    · intro hcons
      obtain ⟨hshould, hcases⟩ := hr.considered_outside hcons houtside
      exact ⟨hshould, hcases.imp_right .inl⟩
    · simp
    · simp
    · intro hset
      rcases hr.waits hset with hpos | hclosing
      · left
        rw [considering, hmain, if_neg (by simp)] at hpos
        simpa [considering, asks] using hpos
      · right
        rw [closing, hmain] at hclosing
        exact hclosing
    · intro hsent
      apply hr.sent
      rw [closeSent, hmain]
      exact hsent

/-- A subtask gets from one place to another where it does not ask either. -/
theorem Raised.moved {s s' : Conversation} (hr : Raised s) {before after : List TaskState}
    {t t' : TaskState} (htasks : s.tasks = before ++ t :: after)
    (hword : s'.word = s.word ∨ s'.word = s.setShouldClose.word)
    (hrest : s'.queue = s.queue ∧ s'.main = s.main ∧ s'.closes = s.closes ∧
      s'.considered = s.considered)
    (htasks' : s'.tasks = before ++ t' :: after) (hasks : asks t' = asks t) : Raised s' := by
  obtain ⟨hqueue, hmain, hcloses, hconsidered⟩ := hrest
  obtain ⟨hruns, hflag, hclose, hshould⟩ := word_kept hword
  have hcount : s'.tasks.countP asks = s.tasks.countP asks := by
    rw [htasks, htasks']
    simp only [List.countP_append, List.countP_cons, hasks]
  constructor
  · rw [hflag, hruns]
    exact hr.still
  · rw [hflag, hruns, hconsidered, Updating, hmain]
    exact fun hcons => (hr.considered hcons).imp_left hshould
  · rw [hmain]
    exact fun at' hat => hshould (hr.update at' hat)
  · rw [hmain, hflag, hruns]
    exact hr.compare
  · rw [hflag, considering, closing, hcount, hqueue, hmain, hclose]
    exact hr.waits
  · rw [closeSent, hqueue, hmain, hclose, hcloses]
    exact hr.sent

theorem Raised.updated {s s' : Conversation} (hr : Raised s) {before after ts : List TaskState}
    {t : TaskState} {subtaskTerm : Bool} {at' : Serialize} {left : Serialized}
    (hkeeps : left.Keeps subtaskTerm s.word at') (htasks : s.tasks = before ++ t :: after)
    (hword : s'.word = left.word) (hqueue : s'.queue = s.queue ++ left.enqueued)
    (hrest : s'.main = s.main ∧ s'.closes = s.closes ∧ s'.considered = s.considered)
    (htasks' : s'.tasks = before ++ (ts ++ after)) (hasks : (asks t).toNat = at'.due)
    (hasks' : ts.countP asks = left.next.elim 0 Serialize.due) : Raised s' := by
  obtain ⟨hmain, hcloses, hconsidered⟩ := hrest
  have hheld := hkeeps.held
  have hless := hkeeps.less
  have hdue := hkeeps.due
  have hzero : s.word.runningTasks = 0 → left.word.runningTasks = 0 := by
    intro hnone
    rw [hnone] at hheld
    apply BitVec.eq_of_toNat_eq
    cases subtaskTerm with
    | true =>
      simp only [if_true, BitVec.ofNat_eq_ofNat, BitVec.toNat_zero] at hheld ⊢
      omega
    | false => exact hheld
  have hmoved : s'.considering + s.word.considerCloseEnqueued.toNat =
      s.considering + left.word.considerCloseEnqueued.toNat := by
    have hbefore : s.tasks.countP asks = before.countP asks + (after.countP asks + (asks t).toNat) := by
      rw [htasks, List.countP_append, List.countP_cons]
      cases asks t with
      | true => rfl
      | false => rfl
    have hafter : s'.tasks.countP asks = before.countP asks + (ts.countP asks + after.countP asks) := by
      rw [htasks', List.countP_append, List.countP_append]
    rw [considering, considering, hqueue, hmain, hbefore, hafter, List.count_append]
    omega
  constructor
  · intro hset
    rw [hword] at hset ⊢
    cases hflag : s.word.considerCloseEnqueued with
    | true => exact hzero (hr.still hflag)
    | false => exact (hkeeps.considered hflag hset).1
  · rw [hconsidered, hword, Updating, hmain]
    intro hcons
    obtain ⟨hshould, hcases⟩ := hr.considered hcons
    refine ⟨hkeeps.shouldClose.trans hshould, ?_⟩
    rcases hcases with hflag | hsome | hupdating
    · exact .inl (hkeeps.flagged hflag)
    · by_cases hnone : left.word.runningTasks = 0
      · exact .inl (hkeeps.raises hshould hsome hnone)
      · exact .inr (.inl hnone)
    · exact .inr (.inr hupdating)
  · rw [hmain, hword, hkeeps.shouldClose]
    exact hr.update
  · rw [hmain, hword]
    intro compare hat
    obtain ⟨hasked, hopen⟩ := hr.compare compare hat
    refine ⟨hasked, fun h => ?_⟩
    rcases hopen h with hsome | hflag
    · by_cases hnone : left.word.runningTasks = 0
      · exact .inr (hkeeps.raises (hr.update _ hat) hsome hnone)
      · exact .inl hnone
    · exact .inr (hkeeps.flagged hflag)
  · intro hset
    rw [hword] at hset
    rw [hset, Bool.toNat_true] at hmoved
    rw [closing, hmain, hword, hkeeps.closeEnqueued]
    cases hflag : s.word.considerCloseEnqueued with
    | true =>
      rw [hflag, Bool.toNat_true] at hmoved
      exact (hr.waits hflag).imp_left fun hpos => by omega
    | false =>
      left
      rw [hflag, Bool.toNat_false] at hmoved
      omega
  · rw [closeSent, hmain, hword, hkeeps.closeEnqueued, hqueue, hcloses]
    exact fun hsent => (hr.sent hsent).imp_left (List.mem_append_left _)

theorem Raised.taskStep {s s' : Conversation} (hr : Raised s) (hc : Counted s)
    (h : TaskStep s s') : Raised s' := by
  cases h with
  | @begin before after htasks =>
    refine hr.moved htasks (.inl rfl) ⟨rfl, rfl, rfl, rfl⟩ rfl ?_
    split
    · rfl
    · rfl
  | @serves before after htasks =>
    exact hr.moved htasks (.inl rfl) ⟨rfl, rfl, rfl, rfl⟩ rfl rfl
  | @fails before after htasks =>
    exact hr.moved htasks (.inr rfl) ⟨rfl, rfl, rfl, rfl⟩ rfl rfl
  | @failed before after at' htasks =>
    have hkeeps : (at'.step false s.word).Keeps false s.word at' := Serialize.step_keeps nofun
    refine hr.updated hkeeps htasks rfl rfl ⟨rfl, rfl, rfl⟩
      (show (_ : List TaskState) = before ++ ([_] ++ after) from rfl) ?_ ?_
    · cases at' <;> rfl
    · rw [List.countP_singleton, ← (failed_counts (at'.step false s.word).next).2]
      cases asks _ <;> rfl
  | @ending before after at' htasks =>
    have hkeeps := hc.ending_keeps htasks
    refine hr.updated hkeeps htasks rfl rfl ⟨rfl, rfl, rfl⟩ rfl ?_
      (ending_counts (at'.step true s.word).next).2
    cases at' <;> rfl

theorem Raised.step {s s' : Conversation} (hr : Raised s) (hc : Counted s) (h : Step s s')
    (hroom : HasRoom s) (hstarts : StartsBefore s) : Raised s' := by
  cases h with
  | read h => exact hr.leaves h.leaves
  | work h => exact hr.leaves (h.leaves hc.enqueues)
  | close h => exact hr.closeStep hc h
  | start h => exact hr.startStep h hstarts (hc.startStep h hroom)
  | task h => exact hr.taskStep hc h

/-- Subtasks are started only when they can be counted and no close is due. -/
def StartsInTime (s _ : Conversation) : Prop := HasRoom s ∧ StartsBefore s

theorem run_raised {s : Conversation} (h : Run StartsInTime makeHttpConversation s) :
    Counted s ∧ Raised s := by
  induction h with
  | refl => exact ⟨counted_make, raised_make⟩
  | tail hrun hstep hmeets ih =>
    obtain ⟨hc, hr⟩ := ih
    exact ⟨hc.step hstep hmeets.1, hr.step hc hstep hmeets.1 hmeets.2⟩

/-- No close is lost. -/
theorem close_done {s : Conversation} (hrun : Run StartsInTime makeHttpConversation s) :
    CloseDone s := by
  obtain ⟨hc, hr⟩ := run_raised hrun
  exact hr.closeDone hc

theorem close_done_read : ∃ s, Run StartsInTime makeHttpConversation s ∧
    s.word.shouldClose = true ∧ s.considered = true ∧ s.tasks = [] ∧ s.queue = [] ∧
    s.main = .idle ∧ s.closes = 1 ∧ CloseDone s := by
  obtain ⟨s, hrun, hmain, hqueue, hword, htasks, hconsidered, hopen⟩ :=
    run_read_fails (P := StartsInTime) fun hroom _ =>
      ⟨fun hat => absurd hat hroom, fun hat => absurd hat hroom⟩
  have hnone : ¬0 < s.word.runningTasks.toInt := by
    rw [hword]
    exact Int.lt_irrefl 0
  have hidle : s.main ≠ .startRunning (some s.word) := by
    rw [hmain]
    nofun
  have hclosed := hrun.tail (.close (.close hmain hqueue hnone))
    ⟨fun hat => absurd hat hidle, fun hat => absurd hat hidle⟩
  have hshould : s.word.shouldClose = true := by rw [hword]
  have honce : s.closes + 1 = 1 := by rw [hopen]
  exact ⟨_, hclosed, hshould, hconsidered, htasks, rfl, hmain, honce, close_done hclosed⟩

def takesGet (parser : HttpRequestParser) : Bool :=
  accepts parser getText fun parser' => parser'.requestQHead.length = 1

theorem accepts_get : accepts makeHttpRequestParser getText fun parser =>
    parser.requestQHead.length = 1 && takesGet parser.dequeueHttpRequest.2 := by
  decide +kernel

/-- A subtask runs though the close is to be considered. -/
def late : HttpConversationSerialize := { failed with runningTasks := 1 }

/-- A subtask is started when the close is already to be considered. -/
theorem not_close_done : ¬∀ s, AnyRun makeHttpConversation s → CloseDone s := by
  intro h
  obtain ⟨s, hrun, hs, hp⟩ := run_serving (p := takesGet) accepts_get
  obtain ⟨parser, hparse, hlength⟩ := exists_of_accepts (hp : takesGet s.parser = true)
  obtain ⟨request, hrequest⟩ : ∃ request, parser.requestQHead = [request] :=
    List.length_eq_one_iff.mp (of_decide_eq_true hlength)
  have hfirst : parser.dequeueHttpRequest.1 = some request := by
    rw [HttpRequestParser.dequeueHttpRequest, hrequest]
  cases s
  obtain ⟨hword, hmain, hqueue, htasks, hregistered, hsession, herror, hopen⟩ := hs
  simp only at hword hmain hqueue htasks hregistered hsession herror hopen
  subst hword hmain hqueue htasks hregistered hsession herror hopen
  have hevent := anyRun hrun (.read (.event rfl rfl rfl))
  have hne : getText ≠ [] := List.cons_ne_nil _ _
  have hread := anyRun hevent (.read (@ReadStep.http _ getText true parser rfl rfl hne hparse))
  have henqueue := anyRun hread (.work (.enqueue rfl))
  have henqueued := anyRun henqueue (.work (.enqueued rfl))
  have hended := run_fails henqueued rfl rfl
  have hrespond := anyRun hended (.work (.respond .subtask rfl rfl rfl hfirst))
  have hload := anyRun hrespond (.start (.startRunningLoad rfl))
  have hswap := anyRun hload (.start (.startRunning rfl))
  have hstart := anyRun hswap (.start (.startTask rfl))
  have hbusy : late.runningTasks ≠ 0 := by decide
  have hnotReady := anyRun hstart (.close (.considerNotReady rfl rfl fun hready => hbusy hready.1))
  have hbegin := anyRun hnotReady (.task (@TaskStep.begin _ [] [] rfl))
  have hloaded := run_ending hbegin rfl ⟨late, [], some (.swap late)⟩ rfl
  have hdone := run_ending hloaded rfl ⟨failed, [], none⟩ rfl
  exact Nat.zero_ne_one (h _ hdone rfl rfl rfl rfl rfl)

end Conversation
end Http
end ZoweCommon
