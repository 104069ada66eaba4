import ZoweCommon.Http.ConversationSteps

/-! When the close of a conversation is carried out. -/
namespace ZoweCommon
namespace Http
namespace Conversation

/-- Nothing refers to the conversation any more. -/
structure Closed (s : Conversation) : Prop where
  main : s.main = .idle
  queue : s.queue = []
  tasks : s.tasks = []
  registered : s.registered = false

theorem Closed.final {s : Conversation} (h : Closed s) (s' : Conversation) : ¬Step s s' := by
  obtain ⟨hmain, hqueue, htasks, hregistered⟩ := h
  intro hstep
  cases hstep with
  | read hstep =>
    cases hstep with
    | closing _ hreg => exact absurd (hreg.symm.trans hregistered) nofun
    | event _ hreg => exact absurd (hreg.symm.trans hregistered) nofun
    | fails hat => exact absurd (hat.symm.trans hmain) nofun
    | http hat => exact absurd (hat.symm.trans hmain) nofun
    | ws _ _ hat => exact absurd (hat.symm.trans hmain) nofun
  | work hstep =>
    cases hstep with
    | enqueue hat => exact absurd (hat.symm.trans hmain) nofun
    | enqueued hat => exact absurd (hat.symm.trans hmain) nofun
    | respondError _ hq => exact absurd (hq.symm.trans hqueue) nofun
    | noRequest _ hq => exact absurd (hq.symm.trans hqueue) nofun
    | respond _ _ hq => exact absurd (hq.symm.trans hqueue) nofun
    | message _ _ hq => exact absurd (hq.symm.trans hqueue) nofun
    | noSession _ hq => exact absurd (hq.symm.trans hqueue) nofun
    | output _ hq => exact absurd (hq.symm.trans hqueue) nofun
    | handshake _ hq => exact absurd (hq.symm.trans hqueue) nofun
  | close hstep =>
    cases hstep with
    | considerReady _ hq => exact absurd (hq.symm.trans hqueue) nofun
    | considerNotReady _ hq => exact absurd (hq.symm.trans hqueue) nofun
    | enqueueClose hat => exact absurd (hat.symm.trans hmain) nofun
    | closeEnqueued hat => exact absurd (hat.symm.trans hmain) nofun
    | abandon _ hq => exact absurd (hq.symm.trans hqueue) nofun
    | close _ hq => exact absurd (hq.symm.trans hqueue) nofun
    | serialize hat => exact absurd (hat.symm.trans hmain) nofun
  | start hstep =>
    cases hstep with
    | startRunningLoad hat => exact absurd (hat.symm.trans hmain) nofun
    | startRunning hat => exact absurd (hat.symm.trans hmain) nofun
    | startRunningFails hat => exact absurd (hat.symm.trans hmain) nofun
    | startTask hat => exact absurd (hat.symm.trans hmain) nofun
  | task hstep =>
    have hnone : ∀ (before after : List TaskState) (t : TaskState),
        s.tasks ≠ before ++ t :: after := by
      intro before after t hts
      rw [htasks] at hts
      simp at hts
    cases hstep with
    | begin hts => exact hnone _ _ _ hts
    | serves hts => exact hnone _ _ _ hts
    | fails hts => exact hnone _ _ _ hts
    | failed hts => exact hnone _ _ _ hts
    | ending hts => exact hnone _ _ _ hts

/-- The step carries out the only close, when no subtask is left and nothing comes after it. -/
structure ClosesSafely (s s' : Conversation) : Prop where
  first : s.closes = 0
  once : s'.closes = 1
  tasks : s.tasks = []
  queue : s.queue = [.CLOSE_CONVERSATION]
  last : Closed s'

/-- Handling an element does not bring others behind the close. -/
def KeepsLast (s s' : Conversation) : Prop :=
  s.word.closeEnqueued = true → s.main = .idle → ∀ e es, s'.main ≠ .enqueue (e :: es)

structure Last (s : Conversation) : Prop where
  main : s.closeSent = true → s.main ≠ .reading ∧ ∀ e es, s.main ≠ .enqueue (e :: es)
  queue : WorkElement.CLOSE_CONVERSATION ∉ s.queue.dropLast
  closed : s.closes ≠ 0 → Closed s

theorem last_make : Last makeHttpConversation where
  main := nofun
  queue := List.not_mem_nil
  closed := fun h => absurd rfl h

theorem closing_of_closeSent {s : Conversation} (h : s.closeSent = true) : s.closing = true := by
  unfold closeSent at h
  unfold closing
  rw [Bool.or_assoc, h, Bool.or_true]

theorem Counted.not_close {s : Conversation} (hs : Counted s) (h : s.closeSent = false) :
    WorkElement.CLOSE_CONVERSATION ∉ s.queue := by
  have hclose := hs.closes
  rw [h, Bool.toNat_false] at hclose
  apply List.count_eq_zero.mp
  omega

theorem Counted.sent_of_head {s : Conversation} (hs : Counted s) {queue : List WorkElement}
    (hqueue : s.queue = .CLOSE_CONVERSATION :: queue) : s.closeSent = true := by
  by_contra hnot
  apply hs.not_close (Bool.eq_false_iff.mpr hnot)
  rw [hqueue]
  exact List.mem_cons_self

theorem Counted.not_sent {s : Conversation} (hs : Counted s) (h : 0 < s.considering) :
    s.closeSent = false := by
  have hconsiders := hs.considers
  have hflag := Bool.toNat_le s.word.considerCloseEnqueued
  cases hsent : s.closeSent with
  | false => rfl
  | true =>
    rw [closing_of_closeSent hsent, Bool.toNat_true] at hconsiders
    omega

theorem Counted.asked_of_sent {s : Conversation} (hs : Counted s) (h : s.closeSent = true) :
    s.word.shouldClose = true := by
  have hconsiders := hs.considers
  rw [closing_of_closeSent h, Bool.toNat_true] at hconsiders
  apply hs.asked
  cases hflag : s.word.considerCloseEnqueued with
  | true => rfl
  | false =>
    rw [hflag, Bool.toNat_false] at hconsiders
    omega

/-- What is taken from the front leaves the close the last. -/
theorem not_mem_dropLast_tail {queue : List WorkElement} {e : WorkElement}
    (h : WorkElement.CLOSE_CONVERSATION ∉ (e :: queue).dropLast) :
    WorkElement.CLOSE_CONVERSATION ∉ queue.dropLast := by
  cases queue with
  | nil => exact List.not_mem_nil
  | cons first queue =>
    rw [List.dropLast_cons_cons] at h
    exact fun hmem => h (List.mem_cons_of_mem e hmem)

theorem Last.leaves {s s' : Conversation} (hl : Last s) (hc : Counted s) (h : Leaves s s')
    (hopen : s.closes = 0) (hkeeps : KeepsLast s s') : Last s' := by
  obtain ⟨-, -, -, -, -, -, -, hsent, -⟩ := h.counts
  constructor
  · intro hsent'
    rw [hsent] at hsent'
    have hshould := hc.asked_of_sent hsent'
    have hnot := hl.main hsent'
    cases hmain' : s'.main with
    | reading =>
      have hreading := h.main'
      rw [hmain'] at hreading
      cases hreading with
      | reading hmain hclose => exact absurd (hshould.symm.trans hclose) (by simp)
    | enqueue es =>
      refine ⟨by simp, fun e more hes => ?_⟩
      rw [MainState.enqueue.injEq] at hes
      subst hes
      have henters := h.main'
      rw [hmain'] at henters
      cases henters with
      | enqueue hclose hconsider hmain =>
        rcases hmain with hmain | hmain | ⟨first, hmain⟩
        · refine hkeeps ?_ hmain e more hmain'
          rw [closeSent, hmain] at hsent'
          exact hsent'
        · exact hnot.1 hmain
        · exact hnot.2 _ _ hmain
    | _ => exact ⟨by simp, by simp⟩
  · rcases h.queue with hqueue | ⟨e, hqueue, -⟩ | ⟨e, es, hmain, hqueue⟩
    · rw [hqueue]
      exact hl.queue
    · have hlast := hl.queue
      rw [hqueue] at hlast
      exact not_mem_dropLast_tail hlast
    · rw [hqueue, List.dropLast_concat]
      apply hc.not_close
      cases hsent' : s.closeSent with
      | false => rfl
      | true => exact absurd hmain ((hl.main hsent').2 _ _)
  · intro hne
    rw [h.closes] at hne
    exact absurd hopen hne

theorem Last.updated {s : Conversation} (hl : Last s) (hc : Counted s) (subtaskTerm : Bool)
    (at' : Serialize) (hat : at' = .enqueue → 0 < s.considering) :
    WorkElement.CLOSE_CONVERSATION ∉
      (s.queue ++ (at'.step subtaskTerm s.word).enqueued).dropLast := by
  rcases Serialize.step_enqueued subtaskTerm s.word at' with henqueued | ⟨hhere, henqueued⟩
  · rw [henqueued, List.append_nil]
    exact hl.queue
  · rw [henqueued, List.dropLast_concat]
    exact hc.not_close (hc.not_sent (hat hhere))

/-- When the close is carried out no subtask is left. -/
theorem Counted.no_tasks {s : Conversation} (hs : Counted s) (hsent : s.closeSent = true)
    (hnone : ¬0 < s.word.runningTasks.toInt) : s.tasks = [] := by
  have hconsiders := hs.considers
  have hruns := hs.runs
  have hsmall := hs.small
  have hflag := Bool.toNat_le s.word.considerCloseEnqueued
  rw [closing_of_closeSent hsent, Bool.toNat_true, considering] at hconsiders
  have hint : s.word.runningTasks.toInt = s.word.runningTasks.toNat := by
    apply BitVec.toInt_eq_toNat_of_lt
    omega
  have hzero : s.running = 0 := by omega
  rw [running] at hzero
  have hlive : s.tasks.countP live = 0 := by omega
  have hasks : s.tasks.countP asks = 0 := by omega
  apply List.eq_nil_iff_forall_not_mem.mpr
  intro t ht
  have hnotLive := List.countP_eq_zero.mp hlive t ht
  have hnotAsks := List.countP_eq_zero.mp hasks t ht
  have hend : t = .ending .enqueue := by simpa [live] using hnotLive
  rw [hend] at hnotAsks
  exact hnotAsks rfl

theorem Last.closeStep {s s' : Conversation} (hl : Last s) (hc : Counted s) (h : CloseStep s s')
    (hopen : s.closes = 0) : Last s' := by
  have hlast := hl.queue
  cases h with
  | considerReady hmain hqueue htasks hnot =>
    rw [hqueue] at hlast
    exact ⟨fun _ => ⟨by simp, by simp⟩, not_mem_dropLast_tail hlast, fun hne => absurd hopen hne⟩
  | considerNotReady hmain hqueue hready =>
    rw [hqueue] at hlast
    exact ⟨hl.main, not_mem_dropLast_tail hlast, fun hne => absurd hopen hne⟩
  | enqueueClose hmain =>
    refine ⟨fun _ => ⟨by simp, by simp⟩, ?_, fun hne => absurd hopen hne⟩
    rw [List.dropLast_concat]
    apply hc.not_close
    rw [closeSent, hmain, hc.opens hmain]
    rfl
  | closeEnqueued hmain =>
    exact ⟨fun _ => ⟨by simp, by simp⟩, hlast, fun hne => absurd hopen hne⟩
  | abandon hmain hqueue htasks =>
    rw [hqueue] at hlast
    exact ⟨hl.main, not_mem_dropLast_tail hlast, fun hne => absurd hopen hne⟩
  | @close queue hmain hqueue htasks =>
    rw [hqueue] at hlast
    refine ⟨hl.main, not_mem_dropLast_tail hlast, fun _ => ?_⟩
    refine ⟨hmain, ?_, hc.no_tasks (hc.sent_of_head hqueue) htasks, rfl⟩
    cases queue with
    | nil => rfl
    | cons e queue =>
      rw [List.dropLast_cons_cons] at hlast
      exact absurd List.mem_cons_self hlast
  | serialize hmain =>
    obtain ⟨-, -, -, hreading, henqueue, -⟩ := resume_cases (Serialize.step false s.word _).next
    refine ⟨fun _ => ⟨hreading, fun e es => henqueue _⟩, hl.updated hc _ _ ?_,
      fun hne => absurd hopen hne⟩
    intro hat
    rw [hat] at hmain
    simp [considering, hmain]

theorem Last.startStep {s s' : Conversation} (hl : Last s) (hc : Counted s) (h : StartStep s s')
    (hopen : s.closes = 0) (hkeeps : KeepsLast s s') : Last s' := by
  cases h with
  | startRunningLoad hmain => exact hl.leaves hc (leaves_starting hmain rfl) hopen hkeeps
  | startRunning hmain =>
    exact ⟨fun _ => ⟨nofun, nofun⟩, hl.queue, fun hne => absurd hopen hne⟩
  | startRunningFails hmain hne => exact hl.leaves hc (leaves_starting hmain rfl) hopen hkeeps
  | startTask hmain =>
    exact ⟨fun _ => ⟨nofun, nofun⟩, hl.queue, fun hne => absurd hopen hne⟩

theorem considering_pos {s : Conversation} {before after : List TaskState} {t : TaskState}
    (htasks : s.tasks = before ++ t :: after) (hasks : asks t = true) : 0 < s.considering := by
  have hpos : 0 < s.tasks.countP asks := by
    rw [htasks]
    exact List.countP_pos_iff.mpr ⟨t, by simp, hasks⟩
  rw [considering]
  omega

theorem Last.taskStep {s s' : Conversation} (hl : Last s) (hc : Counted s) (h : TaskStep s s')
    (hopen : s.closes = 0) : Last s' := by
  cases h with
  | begin htasks => exact ⟨hl.main, hl.queue, fun hne => absurd hopen hne⟩
  | serves htasks => exact ⟨hl.main, hl.queue, fun hne => absurd hopen hne⟩
  | fails htasks => exact ⟨hl.main, hl.queue, fun hne => absurd hopen hne⟩
  | @failed before after at' htasks =>
    have hkeeps : (at'.step false s.word).Keeps false s.word at' := Serialize.step_keeps nofun
    refine ⟨fun hsent => hl.main ?_, hl.updated hc _ _ ?_, fun hne => absurd hopen hne⟩
    · rw [closeSent, hkeeps.closeEnqueued] at hsent
      exact hsent
    · intro hat
      subst hat
      exact considering_pos htasks rfl
  | @ending before after at' htasks =>
    have hkeeps := hc.ending_keeps htasks
    refine ⟨fun hsent => hl.main ?_, hl.updated hc _ _ ?_, fun hne => absurd hopen hne⟩
    · rw [closeSent, hkeeps.closeEnqueued] at hsent
      exact hsent
    · intro hat
      subst hat
      exact considering_pos htasks rfl

theorem Last.step {s s' : Conversation} (hl : Last s) (hc : Counted s) (h : Step s s')
    (hkeeps : KeepsLast s s') : Last s' := by
  have hopen : s.closes = 0 := by
    by_contra hne
    exact (hl.closed hne).final s' h
  cases h with
  | read h => exact hl.leaves hc h.leaves hopen hkeeps
  | work h => exact hl.leaves hc (h.leaves hc.enqueues) hopen hkeeps
  | close h => exact hl.closeStep hc h hopen
  | start h => exact hl.startStep hc h hopen hkeeps
  | task h => exact hl.taskStep hc h hopen

/-- A subtask is started only when it can be counted, and nothing comes behind the close. -/
def ClosesInOrder (s s' : Conversation) : Prop := HasRoom s ∧ KeepsLast s s'

theorem run_last {s : Conversation} (h : Run ClosesInOrder makeHttpConversation s) :
    Counted s ∧ Last s := by
  induction h with
  | refl => exact ⟨counted_make, last_make⟩
  | tail hrun hstep hmeets ih =>
    obtain ⟨hc, hl⟩ := ih
    exact ⟨hc.step hstep hmeets.1, hl.step hc hstep hmeets.2⟩

theorem close_of_closes {s s' : Conversation} (h : Step s s')
    (henqueue : ∀ es, s.main = .enqueue es →
      WorkElement.CLOSE_CONVERSATION ∉ es ∧ WorkElement.CONSIDER_CLOSE_CONVERSATION ∉ es)
    (hcloses : s'.closes ≠ s.closes) :
    s.main = .idle ∧ s.queue = .CLOSE_CONVERSATION :: s'.queue ∧ s'.main = s.main ∧
      s'.tasks = s.tasks ∧ s'.closes = s.closes + 1 := by
  cases h with
  | read h => exact absurd h.leaves.closes hcloses
  | work h => exact absurd (h.leaves henqueue).closes hcloses
  | close h =>
    cases h with
    | close hmain hqueue htasks => exact ⟨hmain, hqueue, rfl, rfl, rfl⟩
    | _ => exact absurd rfl hcloses
  | start h => cases h <;> exact absurd rfl hcloses
  | task h => cases h <;> exact absurd rfl hcloses

/-- The close is carried out once and is the last that is done for the conversation. -/
theorem closes_safely {s s' : Conversation} (hrun : Run ClosesInOrder makeHttpConversation s)
    (hstep : Step s s') (hcloses : s'.closes ≠ s.closes) : ClosesSafely s s' := by
  obtain ⟨hc, hl⟩ := run_last hrun
  have hopen : s.closes = 0 := by
    by_contra hne
    exact (hl.closed hne).final s' hstep
  obtain ⟨hmain, hqueue, hmain', htasks, honce⟩ := close_of_closes hstep hc.enqueues hcloses
  have hkeeps : KeepsLast s s' := by
    intro _ _ e es hes
    rw [hmain', hmain] at hes
    exact absurd hes nofun
  have hlast := (hl.step hc hstep hkeeps).closed (by omega)
  constructor
  · exact hopen
  · rw [honce, hopen]
  · rw [← htasks]
    exact hlast.tasks
  · rw [hqueue, hlast.queue]
  · exact hlast

theorem run_read_fails {P : Conversation → Conversation → Prop}
    (hP : ∀ {s s' : Conversation}, s.main ≠ .startRunning (some s.word) → KeepsLast s s' → P s s') :
    ∃ s, Run P makeHttpConversation s ∧ s.main = .idle ∧ s.queue = [.CLOSE_CONVERSATION] ∧
      s.word = { shouldClose := true, considerCloseEnqueued := true, closeEnqueued := true } ∧
      s.tasks = [] ∧ s.considered = true ∧ s.closes = 0 := by
  have hstart : Run P makeHttpConversation _ := .refl
  have hread := hstart.tail (.read (.event rfl rfl rfl)) (hP nofun nofun)
  have hfails := hread.tail (.read (.fails rfl)) (hP nofun nofun)
  have hclosing := hfails.tail (.read (.closing rfl rfl rfl)) (hP nofun nofun)
  have hload := hclosing.tail (.close (.serialize rfl)) (hP nofun nofun)
  have hswap := hload.tail (.close (.serialize rfl)) (hP nofun nofun)
  have henqueue := hswap.tail (.close (.serialize rfl)) (hP nofun nofun)
  have hconsider := henqueue.tail (.close (.considerReady rfl rfl rfl rfl)) (hP nofun nofun)
  have hclose := hconsider.tail (.close (.enqueueClose rfl)) (hP nofun nofun)
  have hidle := hclose.tail (.close (.closeEnqueued rfl)) (hP nofun nofun)
  exact ⟨_, hidle, rfl, rfl, rfl, rfl, rfl, rfl⟩

theorem closes_safely_read : ∃ s s', Run ClosesInOrder makeHttpConversation s ∧ Step s s' ∧
    s'.closes ≠ s.closes ∧ ClosesSafely s s' := by
  obtain ⟨s, hrun, hmain, hqueue, hword, -⟩ :=
    run_read_fails (P := ClosesInOrder) fun hroom hkeeps => ⟨fun hat => absurd hat hroom, hkeeps⟩
  have hstep : Step s { s with queue := [], registered := false, closes := s.closes + 1 } := by
    refine .close (.close hmain hqueue ?_)
    rw [hword]
    exact Int.lt_irrefl 0
  have hcloses : s.closes + 1 ≠ s.closes := Nat.succ_ne_self _
  exact ⟨s, _, hrun, hstep, hcloses, closes_safely hrun hstep hcloses⟩

def accepts (parser : HttpRequestParser) (data : List Byte) (p : HttpRequestParser → Bool) : Bool :=
  match processHttpFragment parser data with
  | .ok (goesOn, parser) => goesOn && p parser
  | .error _ => false

theorem exists_of_accepts {parser : HttpRequestParser} {data : List Byte}
    {p : HttpRequestParser → Bool} (h : accepts parser data p = true) :
    ∃ parser', processHttpFragment parser data = .ok (true, parser') ∧ p parser' = true := by
  unfold accepts at h
  split at h
  · rename_i goesOn parser' hparse
    rw [Bool.and_eq_true] at h
    rw [h.1] at hparse
    exact ⟨parser', hparse, h.2⟩
  · exact absurd h Bool.false_ne_true

def getText : List Byte := CString.ascii "GET / HTTP/1.1\r\n\r\n"

def upgradeText : List Byte := CString.ascii "GET / HTTP/1.1\r\nUpgrade: websocket\r\n\r\n"

abbrev AnyRun := Run fun _ _ => True

/-- A subtask serves the first request, and a second one has not arrived yet. -/
structure Serving (s : Conversation) : Prop where
  word : s.word = { runningTasks := 1 }
  main : s.main = .idle
  queue : s.queue = []
  tasks : s.tasks = [.serving]
  registered : s.registered = true
  wsSession : s.wsSession = false
  shouldError : s.shouldError = false
  closes : s.closes = 0

theorem anyRun {s₀ s s' : Conversation} (hrun : AnyRun s₀ s) (hstep : Step s s') : AnyRun s₀ s' :=
  .tail hrun hstep trivial

theorem run_serving {p : HttpRequestParser → Bool}
    (h : accepts makeHttpRequestParser getText fun parser =>
      parser.requestQHead.length = 1 && p parser.dequeueHttpRequest.2) :
    ∃ s, AnyRun makeHttpConversation s ∧ Serving s ∧ p s.parser = true := by
  obtain ⟨parser, hparse, hp⟩ := exists_of_accepts h
  rw [Bool.and_eq_true] at hp
  obtain ⟨request, hrequest⟩ : ∃ request, parser.requestQHead = [request] :=
    List.length_eq_one_iff.mp (of_decide_eq_true hp.1)
  have hfirst : parser.dequeueHttpRequest.1 = some request := by
    rw [HttpRequestParser.dequeueHttpRequest, hrequest]
  have hevent := anyRun (.refl : AnyRun makeHttpConversation _) (.read (.event rfl rfl rfl))
  have hne : getText ≠ [] := List.cons_ne_nil _ _
  have hread := anyRun hevent (.read (@ReadStep.http _ getText true parser rfl rfl hne hparse))
  have henqueue := anyRun hread (.work (.enqueue rfl))
  have henqueued := anyRun henqueue (.work (.enqueued rfl))
  have hrespond := anyRun henqueued (.work (.respond .subtask rfl rfl rfl hfirst))
  have hload := anyRun hrespond (.start (.startRunningLoad rfl))
  have hswap := anyRun hload (.start (.startRunning rfl))
  have hstart := anyRun hswap (.start (.startTask rfl))
  have hbegin := anyRun hstart (.task (@TaskStep.begin _ [] [] rfl))
  exact ⟨_, hbegin, ⟨rfl, rfl, rfl, rfl, rfl, rfl, rfl, rfl⟩, hp.2⟩

def takesUpgrade (parser : HttpRequestParser) : Bool :=
  accepts parser upgradeText fun parser' =>
    parser'.requestQHead.map HttpRequest.isWebSocket = [true]

theorem accepts_upgrade : accepts makeHttpRequestParser getText fun parser =>
    parser.requestQHead.length = 1 && takesUpgrade parser.dequeueHttpRequest.2 := by
  decide +kernel

theorem run_failed {s₀ s : Conversation} {at' : Serialize} (hrun : AnyRun s₀ s)
    (htasks : s.tasks = [.failed at']) (after : Serialized)
    (hafter : at'.step false s.word = after) :
    AnyRun s₀ { s with
      word := after.word
      queue := s.queue ++ after.enqueued
      tasks := [(after.next.map TaskState.failed).getD (.ending .load)] } := by
  subst hafter
  exact anyRun hrun (.task (@TaskStep.failed _ [] [] at' htasks))

theorem run_ending {s₀ s : Conversation} {at' : Serialize} (hrun : AnyRun s₀ s)
    (htasks : s.tasks = [.ending at']) (after : Serialized)
    (hafter : at'.step true s.word = after) :
    AnyRun s₀ { s with
      word := after.word
      queue := s.queue ++ after.enqueued
      tasks := (after.next.map TaskState.ending).toList } := by
  subst hafter
  have hstep := anyRun hrun (.task (@TaskStep.ending _ [] [] at' htasks))
  rw [List.nil_append, List.append_nil] at hstep
  exact hstep

/-- A subtask has failed, and the same after it has ended. -/
def failing : HttpConversationSerialize := { shouldClose := true, runningTasks := 1 }

def failed : HttpConversationSerialize := { shouldClose := true, considerCloseEnqueued := true }

/-- The only subtask fails and ends. -/
theorem run_fails {s₀ s : Conversation} (hrun : AnyRun s₀ s)
    (hword : s.word = { runningTasks := 1 }) (htasks : s.tasks = [.serving]) :
    AnyRun s₀ { s with
      word := failed
      queue := s.queue ++ [.CONSIDER_CLOSE_CONVERSATION]
      tasks := [] } := by
  cases s
  simp only at hword htasks
  subst hword htasks
  have hfails := anyRun hrun (.task (@TaskStep.fails _ [] [] rfl))
  have hfailed := run_failed hfails rfl ⟨failing, [], some (.swap failing)⟩ rfl
  have hkept := run_failed hfailed rfl ⟨failing, [], none⟩ rfl
  have hending := run_ending hkept rfl ⟨failing, [], some (.swap failing)⟩ rfl
  have hswap := run_ending hending rfl ⟨failed, [], some .enqueue⟩ rfl
  have hended := run_ending hswap rfl ⟨failed, [.CONSIDER_CLOSE_CONVERSATION], none⟩ rfl
  simp only [List.append_nil] at hended
  exact hended

/-- The web socket that is opened by a request behind the close sends something. -/
theorem not_closes_safely : ¬∀ s s' : Conversation, AnyRun makeHttpConversation s → Step s s' →
    s'.closes ≠ s.closes → ClosesSafely s s' := by
  intro h
  obtain ⟨s, hrun, hs, hp⟩ := run_serving (p := takesUpgrade) accepts_upgrade
  obtain ⟨parser, hparse, hupgrade⟩ := exists_of_accepts (hp : takesUpgrade s.parser = true)
  obtain ⟨request, hqueue, hws⟩ : ∃ request, parser.requestQHead = [request] ∧
      request.isWebSocket = true := by
    have hmap := of_decide_eq_true hupgrade
    rw [List.map_eq_singleton_iff] at hmap
    exact hmap
  have hfirst : parser.dequeueHttpRequest.1 = some request := by
    rw [HttpRequestParser.dequeueHttpRequest, hqueue]
  cases request
  cases s
  obtain ⟨hword, hmain, hqueue, htasks, hregistered, hsession, herror, hopen⟩ := hs
  simp only at hword hmain hqueue htasks hregistered hsession herror hopen hws
  subst hword hmain hqueue htasks hregistered hsession herror hopen hws
  have hevent := anyRun hrun (.read (.event rfl rfl rfl))
  have hended := run_fails hevent rfl rfl
  have hne : upgradeText ≠ [] := List.cons_ne_nil _ _
  have hread := anyRun hended (.read (@ReadStep.http _ upgradeText true parser rfl rfl hne hparse))
  have henqueue := anyRun hread (.work (.enqueue rfl))
  have henqueued := anyRun henqueue (.work (.enqueued rfl))
  have hconsider := anyRun henqueued (.close (.considerReady rfl rfl rfl rfl))
  have hclose := anyRun hconsider (.close (.enqueueClose rfl))
  have hcloseEnqueued := anyRun hclose (.close (.closeEnqueued rfl))
  have hrespond := anyRun hcloseEnqueued
    (.work (.respond (.webSocket true 1) rfl rfl rfl hfirst))
  have houtput := anyRun hrespond (.work (.enqueue rfl))
  have hidle := anyRun houtput (.work (.enqueued rfl))
  have hsafe := h _ _ hidle (.close (.close rfl rfl (Int.lt_irrefl 0))) (Nat.succ_ne_self _)
  exact absurd hsafe.queue nofun

end Conversation
end Http
end ZoweCommon
