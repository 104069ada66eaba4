import ZoweCommon.Http.Conversation

/-! What the steps of a conversation do to the counts in its word and in the queue. -/
namespace ZoweCommon
namespace Http

open HttpConversationSerialize

namespace HttpConversationSerialize

/-- What a copy and the one that replaces it have in common. -/
theorem replace_keeps (compare : HttpConversationSerialize) (subtaskTerm : Bool) :
    (compare.replace subtaskTerm).shouldClose = compare.shouldClose ∧
      (compare.replace subtaskTerm).closeEnqueued = compare.closeEnqueued ∧
      (compare.considerCloseEnqueued = true →
        (compare.replace subtaskTerm).considerCloseEnqueued = true) := by
  refine ⟨rfl, rfl, fun h => ?_⟩
  simp only [replace, h, ite_self]

theorem replace_runningTasks (compare : HttpConversationSerialize) (subtaskTerm : Bool) :
    (compare.replace subtaskTerm).runningTasks =
      if subtaskTerm then compare.runningTasks - 1 else compare.runningTasks :=
  rfl

theorem replace_considered {compare : HttpConversationSerialize} {subtaskTerm : Bool}
    (h : (compare.replace subtaskTerm).considerCloseEnqueued = true)
    (hnot : compare.considerCloseEnqueued = false) :
    (compare.replace subtaskTerm).runningTasks = 0 ∧ compare.shouldClose = true := by
  have hset : ((compare.replace subtaskTerm).runningTasks = 0 ∧ compare.shouldClose = true) ∧
      (!compare.considerCloseEnqueued) = true := by
    by_contra hcond
    have hkeep : (compare.replace subtaskTerm).considerCloseEnqueued =
        compare.considerCloseEnqueued := by
      apply if_neg
      rw [← and_assoc]
      exact hcond
    rw [hkeep, hnot] at h
    exact Bool.false_ne_true h
  exact hset.1

theorem replace_raises {compare : HttpConversationSerialize} {subtaskTerm : Bool}
    (hshould : compare.shouldClose = true)
    (hnone : (compare.replace subtaskTerm).runningTasks = 0) :
    (compare.replace subtaskTerm).considerCloseEnqueued = true := by
  cases hflag : compare.considerCloseEnqueued with
  | true => exact (replace_keeps compare subtaskTerm).2.2 hflag
  | false =>
    apply if_pos
    refine ⟨hnone, hshould, ?_⟩
    rw [hflag]
    rfl

end HttpConversationSerialize

/-- The element that is still to be put into the queue. -/
def Serialize.due (at' : Serialize) : ℕ := if at' = .enqueue then 1 else 0

/-- Whether the word counts the subtask that is there at its end. -/
def Serialize.held (at' : Serialize) : ℕ := if at' = .enqueue then 0 else 1

/-- What a step leaves of the counts. -/
structure Serialized.Keeps (subtaskTerm : Bool) (word : HttpConversationSerialize)
    (at' : Serialize) (after : Serialized) : Prop where
  shouldClose : after.word.shouldClose = word.shouldClose
  closeEnqueued : after.word.closeEnqueued = word.closeEnqueued
  due : after.enqueued.count .CONSIDER_CLOSE_CONVERSATION + after.next.elim 0 Serialize.due +
      word.considerCloseEnqueued.toNat =
    at'.due + after.word.considerCloseEnqueued.toNat
  held : after.word.runningTasks.toNat + (if subtaskTerm then at'.held else 0) =
    word.runningTasks.toNat + if subtaskTerm then after.next.elim 0 Serialize.held else 0
  less : after.next.elim 0 Serialize.held ≤ at'.held
  considered : word.considerCloseEnqueued = false → after.word.considerCloseEnqueued = true →
    after.word.runningTasks = 0 ∧ word.shouldClose = true
  flagged : word.considerCloseEnqueued = true → after.word.considerCloseEnqueued = true
  raises : word.shouldClose = true → word.runningTasks ≠ 0 → after.word.runningTasks = 0 →
    after.word.considerCloseEnqueued = true
  close : after.enqueued.count .CLOSE_CONVERSATION = 0

theorem Serialize.step_enqueued (subtaskTerm : Bool) (word : HttpConversationSerialize)
    (at' : Serialize) : (at'.step subtaskTerm word).enqueued = [] ∨
      at' = .enqueue ∧ (at'.step subtaskTerm word).enqueued = [.CONSIDER_CLOSE_CONVERSATION] := by
  cases at' with
  | load => exact .inl rfl
  | enqueue => exact .inr ⟨rfl, rfl⟩
  | swap compare =>
    left
    simp only [Serialize.step]
    split_ifs
    · rfl
    · rfl
    · rfl
    · rfl

theorem Serialized.keeps_refl (subtaskTerm : Bool) (word : HttpConversationSerialize)
    {at' next : Serialize} (hat : at' ≠ .enqueue) (hnext : next ≠ .enqueue) :
    Serialized.Keeps subtaskTerm word at' ⟨word, [], some next⟩ where
  shouldClose := rfl
  closeEnqueued := rfl
  due := by simp [Serialize.due, hat, hnext]
  held := by simp [Serialize.held, hat, hnext]
  less := by simp [Serialize.held, hat, hnext]
  considered := fun hnot hflag => absurd (hnot.symm.trans hflag) Bool.false_ne_true
  flagged := id
  raises := fun _ hsome hnone => absurd hnone hsome
  close := rfl

theorem Serialize.step_keeps {subtaskTerm : Bool} {word : HttpConversationSerialize}
    {at' : Serialize} (hcount : subtaskTerm = true → at' ≠ .enqueue → word.runningTasks ≠ 0) :
    (at'.step subtaskTerm word).Keeps subtaskTerm word at' := by
  cases at' with
  | load => exact Serialized.keeps_refl subtaskTerm word nofun nofun
  | enqueue =>
    constructor
    · rfl
    · rfl
    · simp [Serialize.step, Serialize.due]
    · simp [Serialize.step, Serialize.held]
    · exact Nat.zero_le _
    · exact fun hnot hflag => absurd (hnot.symm.trans hflag) Bool.false_ne_true
    · exact id
    · exact fun _ hsome hnone => absurd hnone hsome
    · simp [Serialize.step]
  | swap compare =>
    simp only [Serialize.step]
    split_ifs with hsame hword hflag
    · have hkept : (compare.replace subtaskTerm).runningTasks = compare.runningTasks := by
        rw [← hsame]
      have hmain : subtaskTerm = false := by
        cases subtaskTerm with
        | false => rfl
        | true =>
          rw [replace_runningTasks, if_pos rfl] at hkept
          bv_omega
      subst hmain
      constructor
      · rfl
      · rfl
      · simp [Serialize.due]
      · rfl
      · exact Nat.zero_le _
      · exact fun hnot hflag => absurd (hnot.symm.trans hflag) Bool.false_ne_true
      · exact id
      · exact fun _ hsome hnone => absurd hnone hsome
      · rfl
    · subst hword
      obtain ⟨hshould, hclose, hkeep⟩ := replace_keeps word subtaskTerm
      simp only [Bool.and_eq_true, Bool.not_eq_true'] at hflag
      constructor
      · exact hshould
      · exact hclose
      · simp [Serialize.due, hflag.1, hflag.2]
      · rw [replace_runningTasks]
        cases subtaskTerm with
        | false => rfl
        | true =>
          have := hcount rfl nofun
          simp only [if_true, Serialize.held, Option.elim]
          simp only [reduceCtorEq, ite_false]
          bv_omega
      · exact Nat.zero_le _
      · exact fun hnot hset => replace_considered hset hnot
      · exact hkeep
      · exact fun hshould' _ hnone => replace_raises hshould' hnone
      · rfl
    · subst hword
      obtain ⟨hshould, hclose, hkeep⟩ := replace_keeps word subtaskTerm
      constructor
      · exact hshould
      · exact hclose
      · have : (word.replace subtaskTerm).considerCloseEnqueued = word.considerCloseEnqueued := by
          rw [Bool.and_eq_true, Bool.not_eq_true', not_and, Bool.not_eq_true] at hflag
          cases hbefore : word.considerCloseEnqueued with
          | true => exact hkeep hbefore
          | false => exact hflag hbefore
        simp [Serialize.due, this]
      · rw [replace_runningTasks]
        cases subtaskTerm with
        | false => rfl
        | true =>
          have := hcount rfl nofun
          simp only [if_true, Serialize.held, Option.elim]
          simp only [reduceCtorEq, ite_false]
          bv_omega
      · exact Nat.zero_le _
      · exact fun hnot hset => replace_considered hset hnot
      · exact hkeep
      · exact fun hshould' _ hnone => replace_raises hshould' hnone
      · rfl
    · exact Serialized.keeps_refl subtaskTerm word nofun nofun

theorem Serialized.Keeps.asked {subtaskTerm : Bool} {word : HttpConversationSerialize}
    {at' : Serialize} {after : Serialized} (h : after.Keeps subtaskTerm word at')
    (hasked : word.considerCloseEnqueued = true → word.shouldClose = true)
    (hflag : after.word.considerCloseEnqueued = true) : after.word.shouldClose = true := by
  rw [h.shouldClose]
  cases hword : word.considerCloseEnqueued with
  | true => exact hasked hword
  | false => exact (h.considered hword hflag).2

namespace Conversation

/-- A subtask that is counted in the word. -/
def live (t : TaskState) : Bool := t ≠ .ending .enqueue

/-- A subtask that is about to ask for the close to be considered. -/
def asks (t : TaskState) : Bool := t = .failed .enqueue ∨ t = .ending .enqueue

/-- The subtasks that the word counts. -/
def running (s : Conversation) : ℕ := s.tasks.countP live + if s.main = .startTask then 1 else 0

def considering (s : Conversation) : ℕ :=
  s.queue.count .CONSIDER_CLOSE_CONVERSATION + s.tasks.countP asks +
    if s.main = .serialize .enqueue then 1 else 0

/-- The close was found to be due. -/
def closing (s : Conversation) : Bool :=
  s.main = .enqueueClose || s.main = .closeEnqueued || s.word.closeEnqueued

/-- The element for it has been put into the queue. -/
def closeSent (s : Conversation) : Bool := s.main = .closeEnqueued || s.word.closeEnqueued

structure Counted (s : Conversation) : Prop where
  runs : s.word.runningTasks.toNat = s.running
  small : s.running < 2 ^ 15
  considers : s.considering + s.closing.toNat ≤ s.word.considerCloseEnqueued.toNat
  asked : s.word.considerCloseEnqueued = true → s.word.shouldClose = true
  opens : s.main = .enqueueClose → s.word.closeEnqueued = false
  closes : s.queue.count .CLOSE_CONVERSATION + s.closes ≤ s.closeSent.toNat
  enqueues : ∀ es, s.main = .enqueue es →
    WorkElement.CLOSE_CONVERSATION ∉ es ∧ WorkElement.CONSIDER_CLOSE_CONVERSATION ∉ es

theorem counted_make : Counted makeHttpConversation where
  runs := rfl
  small := by decide
  considers := by decide
  asked := nofun
  opens := nofun
  closes := by decide
  enqueues := nofun

/-- The main task is not where the counts would say so, nor in an update of the word. -/
def Plain : MainState → Prop
  | .startTask | .serialize _ | .enqueueClose | .closeEnqueued => False
  | .enqueue es =>
    WorkElement.CLOSE_CONVERSATION ∉ es ∧ WorkElement.CONSIDER_CLOSE_CONVERSATION ∉ es
  | _ => True

/-- Where the main task can get without touching the counts. -/
inductive Enters (s : Conversation) (word : HttpConversationSerialize) : MainState → Prop
  | idle : Enters s word .idle
  | reading (hmain : s.main = .idle) (hclose : s.word.shouldClose = false) : Enters s word .reading
  | enqueued : Enters s word (.enqueue [])
  | enqueue {es : List WorkElement} (hclose : WorkElement.CLOSE_CONVERSATION ∉ es)
      (hconsider : WorkElement.CONSIDER_CLOSE_CONVERSATION ∉ es)
      (hmain : s.main = .idle ∨ s.main = .reading ∨ ∃ e, s.main = .enqueue (e :: es)) :
      Enters s word (.enqueue es)
  | serialize (hclose : word.shouldClose = true) : Enters s word (.serialize .load)
  | startRunning (compare : Option HttpConversationSerialize) :
      Enters s word (.startRunning compare)

structure Leaves (s s' : Conversation) : Prop where
  word : s'.word = s.word ∨ s'.word = s.setShouldClose.word
  tasks : s'.tasks = s.tasks
  closes : s'.closes = s.closes
  main : Plain s.main
  main' : Enters s s'.word s'.main
  considered : s'.considered = s.considered ∨ s'.main = .serialize .load
  queue : s'.queue = s.queue ∨
    (∃ e, s.queue = e :: s'.queue ∧ e ≠ .CLOSE_CONVERSATION ∧ e ≠ .CONSIDER_CLOSE_CONVERSATION) ∨
    ∃ e es, s.main = .enqueue (e :: es) ∧ s'.queue = s.queue ++ [e]

theorem Plain.cases {m : MainState} (h : Plain m) :
    m ≠ .startTask ∧ (∀ at', m ≠ .serialize at') ∧ m ≠ .enqueueClose ∧ m ≠ .closeEnqueued ∧
      ∀ es, m = .enqueue es → WorkElement.CLOSE_CONVERSATION ∉ es ∧
        WorkElement.CONSIDER_CLOSE_CONVERSATION ∉ es := by
  cases m with
  | enqueue es =>
    refine ⟨nofun, nofun, nofun, nofun, fun es' hes => ?_⟩
    cases hes
    exact h
  | startTask => exact h.elim
  | serialize at' => exact h.elim
  | enqueueClose => exact h.elim
  | closeEnqueued => exact h.elim
  | idle => exact ⟨nofun, nofun, nofun, nofun, nofun⟩
  | reading => exact ⟨nofun, nofun, nofun, nofun, nofun⟩
  | startRunning compare => exact ⟨nofun, nofun, nofun, nofun, nofun⟩

theorem Enters.cases {s : Conversation} {word : HttpConversationSerialize} {m : MainState}
    (h : Enters s word m) :
    m ≠ .startTask ∧ (∀ at', m = .serialize at' → at' = .load ∧ word.shouldClose = true) ∧
      m ≠ .enqueueClose ∧ m ≠ .closeEnqueued ∧
      ∀ es, m = .enqueue es → WorkElement.CLOSE_CONVERSATION ∉ es ∧
        WorkElement.CONSIDER_CLOSE_CONVERSATION ∉ es := by
  cases h with
  | idle => exact ⟨nofun, nofun, nofun, nofun, nofun⟩
  | reading => exact ⟨nofun, nofun, nofun, nofun, nofun⟩
  | enqueued =>
    refine ⟨nofun, nofun, nofun, nofun, fun es hes => ?_⟩
    cases hes
    exact ⟨List.not_mem_nil, List.not_mem_nil⟩
  | enqueue hclose hconsider hmain =>
    refine ⟨nofun, nofun, nofun, nofun, fun es hes => ?_⟩
    cases hes
    exact ⟨hclose, hconsider⟩
  | serialize hclose =>
    refine ⟨nofun, fun at' hat => ?_, nofun, nofun, nofun⟩
    cases hat
    exact ⟨rfl, hclose⟩
  | startRunning compare => exact ⟨nofun, nofun, nofun, nofun, nofun⟩

theorem word_kept {s s' : Conversation}
    (h : s'.word = s.word ∨ s'.word = s.setShouldClose.word) :
    s'.word.runningTasks = s.word.runningTasks ∧
      s'.word.considerCloseEnqueued = s.word.considerCloseEnqueued ∧
      s'.word.closeEnqueued = s.word.closeEnqueued ∧
      (s.word.shouldClose = true → s'.word.shouldClose = true) := by
  rcases h with hword | hword
  · rw [hword]
    exact ⟨rfl, rfl, rfl, id⟩
  · rw [hword]
    exact ⟨rfl, rfl, rfl, fun _ => rfl⟩

theorem Leaves.counts {s s' : Conversation} (h : Leaves s s') :
    s'.word.runningTasks = s.word.runningTasks ∧
      s'.word.considerCloseEnqueued = s.word.considerCloseEnqueued ∧
      s'.word.closeEnqueued = s.word.closeEnqueued ∧
      (s.word.shouldClose = true → s'.word.shouldClose = true) ∧
      s'.running = s.running ∧ s'.considering = s.considering ∧
      s'.closing = s.closing ∧ s'.closeSent = s.closeSent ∧
      s'.queue.count .CLOSE_CONVERSATION = s.queue.count .CLOSE_CONVERSATION := by
  obtain ⟨hstart, hser, hclose, hclosed, henqueue⟩ := h.main.cases
  obtain ⟨hstart', hser', hclose', hclosed', -⟩ := h.main'.cases
  have hser' : s'.main ≠ .serialize .enqueue := fun hat => nomatch (hser' _ hat).1
  have hword := word_kept h.word
  have hcount : ∀ e : WorkElement, e = .CLOSE_CONVERSATION ∨ e = .CONSIDER_CLOSE_CONVERSATION →
      s'.queue.count e = s.queue.count e := by
    intro e he
    rcases h.queue with hq | ⟨first, hq, hne⟩ | ⟨last, es, hmain, hq⟩
    · rw [hq]
    · have : first ≠ e := by
        rcases he with rfl | rfl
        · exact hne.1
        · exact hne.2
      rw [hq, List.count_cons_of_ne this]
    · have : last ≠ e := by
        intro hlast
        subst hlast
        have hes := henqueue _ hmain
        rcases he with rfl | rfl
        · exact hes.1 List.mem_cons_self
        · exact hes.2 List.mem_cons_self
      rw [hq, List.count_append, List.count_cons_of_ne this, List.count_nil, Nat.add_zero]
  refine ⟨hword.1, hword.2.1, hword.2.2.1, hword.2.2.2, ?_, ?_, ?_, ?_, hcount _ (.inl rfl)⟩
  · simp only [running, h.tasks, hstart, hstart']
  · simp only [considering, h.tasks, hser, hser', hcount _ (.inr rfl)]
  · simp only [closing, hclose, hclose', hclosed, hclosed', hword.2.2.1]
  · simp only [closeSent, hclosed, hclosed', hword.2.2.1]

theorem Leaves.counted {s s' : Conversation} (h : Leaves s s') (hs : Counted s) : Counted s' := by
  obtain ⟨hrunning, hconsider, hclose, hshould, hcount, hconsidering, hclosing, hsent, hqueue⟩ :=
    h.counts
  obtain ⟨-, -, hmain, -, henqueue⟩ := h.main'.cases
  constructor
  · rw [hrunning, hcount]
    exact hs.runs
  · rw [hcount]
    exact hs.small
  · rw [hconsidering, hconsider, hclosing]
    exact hs.considers
  · rw [hconsider]
    exact fun hflag => hshould (hs.asked hflag)
  · exact fun hat => absurd hat hmain
  · rw [hqueue, h.closes, hsent]
    exact hs.closes
  · exact henqueue

theorem not_mem_replicate {e e' : WorkElement} {n : ℕ} (h : e ≠ e') :
    e ∉ List.replicate n e' := fun hmem => h (List.eq_of_mem_replicate hmem)

theorem plain_of_idle {s : Conversation} (h : s.main = .idle) : Plain s.main := by
  rw [h]
  trivial

theorem plain_of_reading {s : Conversation} (h : s.main = .reading) : Plain s.main := by
  rw [h]
  trivial

theorem ReadStep.leaves {s s' : Conversation} (h : ReadStep s s') : Leaves s s' := by
  cases h with
  | closing hmain hregistered hclose =>
    exact ⟨.inl rfl, rfl, rfl, plain_of_idle hmain, .serialize hclose, .inr rfl, .inl rfl⟩
  | event hmain hregistered hclose =>
    exact ⟨.inl rfl, rfl, rfl, plain_of_idle hmain, .reading hmain hclose, .inl rfl, .inl rfl⟩
  | fails hmain =>
    exact ⟨.inr rfl, rfl, rfl, plain_of_reading hmain, .idle, .inl rfl, .inl rfl⟩
  | http hmain hws hdata hparse =>
    exact ⟨.inl rfl, rfl, rfl, plain_of_reading hmain,
      .enqueue (by simp) (by simp) (.inr (.inl hmain)), .inl rfl, .inl rfl⟩
  | ws handshakes hasWSMessage hmain hws =>
    have hnot : ∀ e : WorkElement, e ≠ .WS_CLOSE_HANDSHAKE → e ≠ .WS_MESSAGE_RECEIVED →
        e ∉ List.replicate handshakes .WS_CLOSE_HANDSHAKE ++
          if hasWSMessage then [.WS_MESSAGE_RECEIVED] else [] := by
      intro e hhandshake hmessage hmem
      rcases List.mem_append.mp hmem with hmem | hmem
      · exact not_mem_replicate hhandshake hmem
      · split at hmem
        · exact hmessage (List.mem_singleton.mp hmem)
        · exact List.not_mem_nil hmem
    exact ⟨.inl rfl, rfl, rfl, plain_of_reading hmain,
      .enqueue (hnot _ nofun nofun) (hnot _ nofun nofun) (.inr (.inl hmain)), .inl rfl, .inl rfl⟩

/-- The outputs of a web socket are on their way. -/
theorem enters_outputs {s : Conversation} (word : HttpConversationSerialize) (outputs : ℕ)
    (hmain : s.main = .idle) :
    Enters s word (.enqueue (List.replicate outputs .WS_OUTPUT)) :=
  .enqueue (not_mem_replicate nofun) (not_mem_replicate nofun) (.inl hmain)

theorem leaves_pop {s s' : Conversation} {e : WorkElement} {queue : List WorkElement}
    (hmain : s.main = .idle) (hqueue : s.queue = e :: queue)
    (hclose : e ≠ .CLOSE_CONVERSATION) (hconsider : e ≠ .CONSIDER_CLOSE_CONVERSATION)
    (hqueue' : s'.queue = queue) (hword : s'.word = s.word ∨ s'.word = s.setShouldClose.word)
    (htasks : s'.tasks = s.tasks) (hcloses : s'.closes = s.closes)
    (hconsidered : s'.considered = s.considered) (hmain' : Enters s s'.word s'.main) :
    Leaves s s' :=
  ⟨hword, htasks, hcloses, plain_of_idle hmain, hmain', .inl hconsidered,
    .inr (.inl ⟨e, by rw [hqueue, hqueue'], hclose, hconsider⟩)⟩

theorem respond_leaves {s : Conversation} {queue : List WorkElement} (hmain : s.main = .idle)
    (hqueue : s.queue = .START_RESPONSE :: queue) (parser : HttpRequestParser)
    (served : List HttpRequest) (request : HttpRequest) (service : Service) :
    Leaves s (respond { s with queue, parser, served } request service) := by
  have hidle : ∀ word, Enters s word s.main := by
    intro word
    rw [hmain]
    exact .idle
  cases service with
  | notFound =>
    simp only [respond]
    split
    · exact leaves_pop hmain hqueue nofun nofun rfl (.inl rfl) rfl rfl rfl (hidle _)
    · exact leaves_pop hmain hqueue nofun nofun rfl (.inr rfl) rfl rfl rfl (hidle _)
  | webSocket accepted outputs =>
    simp only [respond]
    split
    · exact leaves_pop hmain hqueue nofun nofun rfl (.inl rfl) rfl rfl rfl
        (enters_outputs _ outputs hmain)
    · exact leaves_pop hmain hqueue nofun nofun rfl (.inl rfl) rfl rfl rfl (hidle _)
  | subtask =>
    exact leaves_pop hmain hqueue nofun nofun rfl (.inl rfl) rfl rfl rfl (.startRunning none)
  | main fails =>
    simp only [respond]
    split
    · exact leaves_pop hmain hqueue nofun nofun rfl (.inr rfl) rfl rfl rfl (.serialize rfl)
    · exact leaves_pop hmain hqueue nofun nofun rfl (.inl rfl) rfl rfl rfl (hidle _)

theorem WorkStep.leaves {s s' : Conversation} (h : WorkStep s s')
    (henqueue : ∀ es, s.main = .enqueue es →
      WorkElement.CLOSE_CONVERSATION ∉ es ∧ WorkElement.CONSIDER_CLOSE_CONVERSATION ∉ es) :
    Leaves s s' := by
  have hidle : s.main = .idle → ∀ word, Enters s word s.main := by
    intro hmain word
    rw [hmain]
    exact .idle
  cases h with
  | @enqueue element more hmain =>
    have hes := henqueue _ hmain
    refine ⟨.inl rfl, rfl, rfl, ?_, ?_, .inl rfl, .inr (.inr ⟨element, more, hmain, rfl⟩)⟩
    · rw [hmain]
      exact hes
    · rw [List.mem_cons, not_or, List.mem_cons, not_or] at hes
      exact .enqueue hes.1.2 hes.2.2 (.inr (.inr ⟨element, hmain⟩))
  | enqueued hmain =>
    refine ⟨.inl rfl, rfl, rfl, ?_, .idle, .inl rfl, .inl rfl⟩
    rw [hmain]
    exact ⟨List.not_mem_nil, List.not_mem_nil⟩
  | respondError hmain hqueue herror =>
    exact leaves_pop hmain hqueue nofun nofun rfl (.inl rfl) rfl rfl rfl (hidle hmain _)
  | noRequest hmain hqueue herror hnone =>
    exact leaves_pop hmain hqueue nofun nofun rfl (.inl rfl) rfl rfl rfl (hidle hmain _)
  | respond service hmain hqueue herror hrequest =>
    exact respond_leaves hmain hqueue _ _ _ service
  | message outputs hmain hqueue hws =>
    exact leaves_pop hmain hqueue nofun nofun rfl (.inl rfl) rfl rfl rfl
      (enters_outputs _ outputs hmain)
  | noSession hmain hqueue hws =>
    exact leaves_pop hmain hqueue nofun nofun rfl (.inr rfl) rfl rfl rfl (hidle hmain _)
  | output hmain hqueue =>
    exact leaves_pop hmain hqueue nofun nofun rfl (.inl rfl) rfl rfl rfl (hidle hmain _)
  | handshake hmain hqueue =>
    exact leaves_pop hmain hqueue nofun nofun rfl (.inr rfl) rfl rfl rfl (hidle hmain _)

/-- Where the main task gets by a step in the update of the word. -/
def resume (next : Option Serialize) : MainState := (next.map MainState.serialize).getD .idle

theorem resume_cases (next : Option Serialize) :
    resume next ≠ .startTask ∧ resume next ≠ .enqueueClose ∧ resume next ≠ .closeEnqueued ∧
      resume next ≠ .reading ∧ (∀ es, resume next ≠ .enqueue es) ∧
      (if resume next = .serialize .enqueue then 1 else 0) = next.elim 0 Serialize.due := by
  cases next with
  | none => exact ⟨nofun, nofun, nofun, nofun, nofun, rfl⟩
  | some at' =>
    refine ⟨nofun, nofun, nofun, nofun, nofun, ?_⟩
    simp [resume, Serialize.due]

theorem considering_serialize {s s' : Conversation} {at' : Serialize} {left : Serialized}
    (hkeeps : left.Keeps false s.word at') (hmain : s.main = .serialize at')
    (hqueue : s'.queue = s.queue ++ left.enqueued) (hmain' : s'.main = resume left.next)
    (htasks : s'.tasks = s.tasks) :
    s'.considering + s.word.considerCloseEnqueued.toNat =
      s.considering + left.word.considerCloseEnqueued.toNat := by
  obtain ⟨-, -, -, -, -, hdue⟩ := resume_cases left.next
  have hcount := hkeeps.due
  have hat : at'.due = if at' = .enqueue then 1 else 0 := rfl
  rw [considering, considering, hqueue, hmain', htasks, hdue, List.count_append, hmain]
  simp only [MainState.serialize.injEq]
  omega

theorem Counted.serialized {s s' : Conversation} (hs : Counted s) {at' : Serialize}
    {left : Serialized} (hkeeps : left.Keeps false s.word at') (hmain : s.main = .serialize at')
    (hword : s'.word = left.word) (hqueue : s'.queue = s.queue ++ left.enqueued)
    (hmain' : s'.main = resume left.next) (hrest : s'.tasks = s.tasks ∧ s'.closes = s.closes) :
    Counted s' := by
  obtain ⟨htasks, hcloses⟩ := hrest
  obtain ⟨hstart, hclose, hclosed, -, henqueue, -⟩ := resume_cases left.next
  have hmoved := considering_serialize hkeeps hmain hqueue hmain' htasks
  have hruns := hs.runs
  have hsmall := hs.small
  have hconsiders := hs.considers
  have hcounts := hs.closes
  have hheld := hkeeps.held
  rw [running, hmain, if_neg nofun] at hruns hsmall
  rw [closing, hmain] at hconsiders
  rw [closeSent, hmain] at hcounts
  simp only [reduceCtorEq, decide_false, Bool.false_or] at hconsiders hcounts
  constructor
  · rw [hword, running, htasks, hmain', if_neg hstart]
    simpa using hheld.trans hruns
  · rw [running, htasks, hmain', if_neg hstart]
    exact hsmall
  · rw [closing, hword, hmain', decide_eq_false hclose, decide_eq_false hclosed,
      hkeeps.closeEnqueued]
    simp only [Bool.false_or]
    omega
  · rw [hword]
    exact hkeeps.asked hs.asked
  · rw [hmain']
    exact fun hat => absurd hat hclose
  · rw [closeSent, hcloses, hqueue, hword, hmain', decide_eq_false hclosed, hkeeps.closeEnqueued,
      List.count_append, hkeeps.close]
    exact hcounts
  · rw [hmain']
    exact fun es hes => absurd hes (henqueue es)

theorem Counted.closeStep {s s' : Conversation} (hs : Counted s) (h : CloseStep s s') :
    Counted s' := by
  have hrunning := hs.runs
  have hsmall := hs.small
  have hconsidering := hs.considers
  have hclose := hs.closes
  cases h with
  | @considerReady queue hmain hqueue htasks hnot =>
    have hopen : s.closing = false := by simp [closing, hmain, hnot]
    have hsent : s.closeSent = false := by simp [closeSent, hmain, hnot]
    rw [hopen] at hconsidering
    rw [hsent, hqueue] at hclose
    constructor
    · simpa [running, hmain] using hrunning
    · simpa [running, hmain] using hsmall
    · simpa [considering, closing, hmain, hqueue, Nat.add_right_comm] using hconsidering
    · exact hs.asked
    · exact fun _ => hnot
    · simpa [closeSent, hnot] using hclose
    · nofun
  | @considerNotReady queue hmain hqueue hready =>
    have hless : queue.count .CONSIDER_CLOSE_CONVERSATION ≤
        s.queue.count .CONSIDER_CLOSE_CONVERSATION := by
      rw [hqueue]
      exact List.count_le_count_cons
    constructor
    · exact hrunning
    · exact hsmall
    · refine Nat.le_trans (Nat.add_le_add_right ?_ _) hconsidering
      exact Nat.add_le_add_right (Nat.add_le_add_right hless _) _
    · exact hs.asked
    · exact hs.opens
    · simpa [hqueue, closeSent] using hclose
    · exact hs.enqueues
  | enqueueClose hmain =>
    have hnot := hs.opens hmain
    have hsent : s.closeSent = false := by simp [closeSent, hmain, hnot]
    rw [hsent, Bool.toNat_false] at hclose
    constructor
    · simpa [running, hmain] using hrunning
    · simpa [running, hmain] using hsmall
    · simpa [considering, closing, hmain] using hconsidering
    · exact hs.asked
    · nofun
    · simp [closeSent]
      omega
    · nofun
  | closeEnqueued hmain =>
    constructor
    · simpa [running, hmain] using hrunning
    · simpa [running, hmain] using hsmall
    · simpa [considering, closing, hmain] using hconsidering
    · exact hs.asked
    · nofun
    · simpa [closeSent, hmain] using hclose
    · nofun
  | @abandon queue hmain hqueue htasks =>
    constructor
    · exact hrunning
    · exact hsmall
    · simpa [considering, closing, hqueue] using hconsidering
    · exact hs.asked
    · exact hs.opens
    · refine Nat.le_trans (Nat.add_le_add_right ?_ _) hclose
      rw [hqueue]
      exact List.count_le_count_cons
    · exact hs.enqueues
  | @close queue hmain hqueue htasks =>
    constructor
    · exact hrunning
    · exact hsmall
    · simpa [considering, closing, hqueue] using hconsidering
    · exact hs.asked
    · exact hs.opens
    · simpa [hqueue, closeSent, Nat.add_right_comm, Nat.add_assoc] using hclose
    · exact hs.enqueues
  | @serialize at' hmain =>
    exact hs.serialized (Serialize.step_keeps nofun) hmain rfl rfl rfl ⟨rfl, rfl⟩

theorem leaves_starting {s s' : Conversation} {compare compare' : Option HttpConversationSerialize}
    (hmain : s.main = .startRunning compare) (hs' : s' = { s with main := .startRunning compare' }) :
    Leaves s s' := by
  subst hs'
  refine ⟨.inl rfl, rfl, rfl, ?_, .startRunning _, .inl rfl, .inl rfl⟩
  rw [hmain]
  trivial

theorem Counted.startStep {s s' : Conversation} (hs : Counted s) (h : StartStep s s')
    (hroom : s.main = .startRunning (some s.word) → s.tasks.length + 1 < 2 ^ 15) : Counted s' := by
  have hrunning := hs.runs
  have hsmall := hs.small
  have hconsidering := hs.considers
  have hclose := hs.closes
  cases h with
  | startRunningLoad hmain =>
    exact (leaves_starting hmain rfl).counted hs
  | startRunning hmain =>
    have hlive : s.tasks.countP live ≤ s.tasks.length := List.countP_le_length
    have hlength := hroom hmain
    have hnot : s.running = s.tasks.countP live := by simp [running, hmain]
    constructor
    · have : s.word.runningTasks.toNat + 1 < 2 ^ 16 := by omega
      simp only [running, if_true]
      rw [BitVec.toNat_add]
      change (_ + 1) % _ = _
      rw [Nat.mod_eq_of_lt this, hrunning, hnot]
    · simp only [running, if_true]
      omega
    · simpa [considering, closing, hmain] using hconsidering
    · exact hs.asked
    · nofun
    · simpa [closeSent, hmain] using hclose
    · nofun
  | startRunningFails hmain hne =>
    exact (leaves_starting hmain rfl).counted hs
  | startTask hmain =>
    constructor
    · simpa [running, hmain, live] using hrunning
    · simpa [running, hmain, live] using hsmall
    · simpa [considering, closing, hmain, asks] using hconsidering
    · exact hs.asked
    · nofun
    · simpa [closeSent, hmain] using hclose
    · nofun

/-- A subtask gets from one place to another where it is counted too and does not ask. -/
theorem Counted.moved {s s' : Conversation} (hs : Counted s) {before after : List TaskState}
    {t t' : TaskState} (htasks : s.tasks = before ++ t :: after)
    (hword : s'.word = s.word ∨ s'.word = s.setShouldClose.word)
    (hrest : s'.queue = s.queue ∧ s'.main = s.main ∧ s'.closes = s.closes)
    (htasks' : s'.tasks = before ++ t' :: after) (hlive : live t' = live t)
    (hasks : asks t' = asks t) : Counted s' := by
  obtain ⟨hqueue, hmain, hcloses⟩ := hrest
  have hkept := word_kept hword
  have hcounts : s'.tasks.countP live = s.tasks.countP live ∧
      s'.tasks.countP asks = s.tasks.countP asks := by
    rw [htasks, htasks']
    simp only [List.countP_append, List.countP_cons, hlive, hasks, and_self]
  constructor
  · rw [hkept.1, running, hcounts.1, hmain]
    exact hs.runs
  · rw [running, hcounts.1, hmain]
    exact hs.small
  · rw [considering, closing, hqueue, hcounts.2, hmain, hkept.2.2.1, hkept.2.1]
    exact hs.considers
  · rw [hkept.2.1]
    exact fun hflag => hkept.2.2.2 (hs.asked hflag)
  · rw [hmain, hkept.2.2.1]
    exact hs.opens
  · rw [closeSent, hqueue, hcloses, hmain, hkept.2.2.1]
    exact hs.closes
  · rw [hmain]
    exact hs.enqueues

theorem Counted.updated {s s' : Conversation} (hs : Counted s) {before after ts : List TaskState}
    {t : TaskState} {subtaskTerm : Bool} {at' : Serialize} {left : Serialized}
    (hkeeps : left.Keeps subtaskTerm s.word at') (htasks : s.tasks = before ++ t :: after)
    (hword : s'.word = left.word) (hqueue : s'.queue = s.queue ++ left.enqueued)
    (hrest : s'.main = s.main ∧ s'.closes = s.closes) (htasks' : s'.tasks = before ++ (ts ++ after))
    (hlive : ts.countP live + (if subtaskTerm then at'.held else 0) =
      (live t).toNat + if subtaskTerm then left.next.elim 0 Serialize.held else 0)
    (hless : ts.countP live ≤ (live t).toNat) (hasks : (asks t).toNat = at'.due)
    (hasks' : ts.countP asks = left.next.elim 0 Serialize.due) : Counted s' := by
  obtain ⟨hmain, hcloses⟩ := hrest
  have hone : ∀ (p : TaskState → Bool), s.tasks.countP p =
      before.countP p + (after.countP p + (p t).toNat) := by
    intro p
    rw [htasks, List.countP_append, List.countP_cons]
    cases p t with
    | true => rfl
    | false => rfl
  have hmany : ∀ (p : TaskState → Bool), s'.tasks.countP p =
      before.countP p + (ts.countP p + after.countP p) := by
    intro p
    rw [htasks', List.countP_append, List.countP_append]
  have hrunning : s'.running + (live t).toNat = s.running + ts.countP live := by
    rw [running, running, hone, hmany, hmain]
    omega
  have hruns := hs.runs
  have hsmall := hs.small
  have hconsiders := hs.considers
  have hheld := hkeeps.held
  have hdue := hkeeps.due
  constructor
  · rw [hword]
    omega
  · omega
  · rw [considering, closing, hone] at hconsiders
    rw [considering, closing, hqueue, hword, hmain, hkeeps.closeEnqueued, hmany, List.count_append]
    omega
  · rw [hword]
    exact hkeeps.asked hs.asked
  · rw [hmain, hword, hkeeps.closeEnqueued]
    exact hs.opens
  · rw [closeSent, hqueue, hcloses, hmain, hword, hkeeps.closeEnqueued, List.count_append,
      hkeeps.close]
    exact hs.closes
  · rw [hmain]
    exact hs.enqueues

/-- A subtask at its end is counted until it is not any more. -/
theorem Counted.ending_keeps {s : Conversation} (hs : Counted s) {before after : List TaskState}
    {at' : Serialize} (htasks : s.tasks = before ++ .ending at' :: after) :
    (at'.step true s.word).Keeps true s.word at' := by
  apply Serialize.step_keeps
  intro _ hat hzero
  have hlive : live (.ending at') = true := by simp [live, hat]
  have hpos : 0 < s.tasks.countP live := by
    rw [htasks]
    exact List.countP_pos_iff.mpr ⟨_, by simp, hlive⟩
  have hruns := hs.runs
  rw [hzero] at hruns
  have hnone : s.running = 0 := hruns.symm
  rw [running] at hnone
  omega

/-- Where a subtask gets by a step in the update after a failure. -/
theorem failed_counts (next : Option Serialize) :
    live ((next.map TaskState.failed).getD (.ending .load)) = true ∧
      (asks ((next.map TaskState.failed).getD (.ending .load))).toNat =
        next.elim 0 Serialize.due := by
  cases next with
  | none => exact ⟨rfl, rfl⟩
  | some at' => cases at' <;> exact ⟨rfl, rfl⟩

/-- Where a subtask gets by a step in the update at its end. -/
theorem ending_counts (next : Option Serialize) :
    ((next.map TaskState.ending).toList).countP live = next.elim 0 Serialize.held ∧
      ((next.map TaskState.ending).toList).countP asks = next.elim 0 Serialize.due := by
  cases next with
  | none => exact ⟨rfl, rfl⟩
  | some at' => cases at' <;> exact ⟨rfl, rfl⟩

theorem Counted.taskStep {s s' : Conversation} (hs : Counted s) (h : TaskStep s s') :
    Counted s' := by
  have hrunning := hs.runs
  have hsmall := hs.small
  have hconsidering := hs.considers
  have hclose := hs.closes
  cases h with
  | @begin before after htasks =>
    refine hs.moved htasks (.inl rfl) ⟨rfl, rfl, rfl⟩ rfl ?_ ?_
    · split
      · rfl
      · rfl
    · split
      · rfl
      · rfl
  | @serves before after htasks =>
    exact hs.moved htasks (.inl rfl) ⟨rfl, rfl, rfl⟩ rfl rfl rfl
  | @fails before after htasks =>
    exact hs.moved htasks (.inr rfl) ⟨rfl, rfl, rfl⟩ rfl rfl rfl
  | @failed before after at' htasks =>
    have hkeeps : (at'.step false s.word).Keeps false s.word at' := Serialize.step_keeps nofun
    obtain ⟨hlive, hasks⟩ := failed_counts (at'.step false s.word).next
    refine hs.updated hkeeps htasks rfl rfl ⟨rfl, rfl⟩
      (show (_ : List TaskState) = before ++ ([_] ++ after) from rfl) ?_ ?_ ?_ ?_
    · rw [List.countP_singleton, hlive]
      rfl
    · rw [List.countP_singleton, hlive]
      exact Nat.le_refl 1
    · cases at' <;> rfl
    · rw [List.countP_singleton, ← hasks]
      cases asks _ <;> rfl
  | @ending before after at' htasks =>
    have hkeeps := hs.ending_keeps htasks
    have hheld : (live (.ending at')).toNat = at'.held := by cases at' <;> rfl
    obtain ⟨hlive, hasks⟩ := ending_counts (at'.step true s.word).next
    refine hs.updated hkeeps htasks rfl rfl ⟨rfl, rfl⟩ rfl ?_ ?_ ?_ hasks
    · rw [hlive, hheld]
      exact Nat.add_comm _ _
    · rw [hlive, hheld]
      exact hkeeps.less
    · cases at' <;> rfl

/-- A new subtask can be counted in the word. -/
def HasRoom (s : Conversation) : Prop :=
  s.main = .startRunning (some s.word) → s.tasks.length + 1 < 2 ^ 15

theorem Counted.step {s s' : Conversation} (hs : Counted s) (h : Step s s') (hroom : HasRoom s) :
    Counted s' := by
  cases h with
  | read h => exact h.leaves.counted hs
  | work h => exact (h.leaves hs.enqueues).counted hs
  | close h => exact hs.closeStep h
  | start h => exact hs.startStep h hroom
  | task h => exact hs.taskStep h

end Conversation

end Http
end ZoweCommon
