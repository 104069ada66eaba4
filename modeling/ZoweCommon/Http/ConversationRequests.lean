import ZoweCommon.Http.ConversationLost

/-! The requests that a conversation takes for service. -/
namespace ZoweCommon
namespace Http

open Exec

namespace HttpRequestParser

def Queues (parser : HttpRequestParser) (x : Exec (Bool × HttpRequestParser)) : Prop :=
  Returns x fun after => parser.requestQHead <+: after.2.requestQHead

theorem queues_accept {parser parser' : HttpRequestParser}
    (h : parser'.requestQHead = parser.requestQHead) : Queues parser parser'.accept :=
  .ok (h ▸ List.prefix_rfl)

theorem queues_reject {parser parser' : HttpRequestParser}
    (h : parser'.requestQHead = parser.requestQHead) (code : ℕ) :
    Queues parser (parser'.reject code) :=
  .ok (h ▸ List.prefix_rfl)

theorem queues_enqueue {parser parser' : HttpRequestParser}
    (h : parser'.requestQHead = parser.requestQHead) :
    Queues parser (accept parser'.resetParserAndEnqueue) := by
  apply Returns.ok
  change _ <+: parser'.requestQHead ++ _
  rw [h]
  exact List.prefix_append _ _

theorem noteHeader_queue (parser : HttpRequestParser) (newHeader : HttpHeader) :
    Returns (parser.noteHeader newHeader) fun after =>
      after.requestQHead = parser.requestQHead := by
  have hsame : Returns (return parser) fun after : HttpRequestParser =>
      after.requestQHead = parser.requestQHead := .ok rfl
  unfold noteHeader
  refine .seq fun encoding => .ite (.seq fun chunked => .ite (.ok rfl) hsame) ?_
  refine .seq fun length => .ite (.seq fun n => .ok rfl) ?_
  refine .seq fun type => .ite (.ok rfl) ?_
  refine .seq fun upgrade => .ite (.seq fun websocket => .ite (.ok rfl) hsame) ?_
  exact .seq fun connection => .ite (.seq fun keepAlive => .ite (.ok rfl) hsame) hsame

theorem addRequestHeader_queue (parser : HttpRequestParser) :
    Returns parser.addRequestHeader fun after => after.requestQHead = parser.requestQHead := by
  unfold addRequestHeader
  refine .seq fun name => .seq fun value => ?_
  exact .bind (noteHeader_queue parser _) fun after h => .ok h

theorem processByte_queues (parser : HttpRequestParser) (c : Byte) :
    Queues parser (parser.processByte c) := by
  unfold processByte
  split
  · apply Returns.ite
    · apply Returns.ite (queues_reject rfl _)
      exact .seq fun valid => .ite (queues_accept rfl) (queues_reject rfl _)
    · exact .ite (.ite (queues_reject rfl _) (queues_accept rfl)) (queues_reject rfl _)
  · exact .ite (queues_accept rfl) (.ite (queues_reject rfl _) (queues_accept rfl))
  · apply Returns.ite (queues_reject rfl _)
    exact .ite (queues_accept rfl) (.seq fun uri => queues_accept rfl)
  · exact .ite (queues_reject rfl _) (.ite (queues_accept rfl) (queues_accept rfl))
  · apply Returns.ite (queues_accept rfl)
    exact .ite (.seq fun version => queues_accept rfl) (queues_reject rfl _)
  · exact .ite (queues_accept rfl) (queues_reject rfl _)
  · exact .ite (.ite (queues_accept rfl) (queues_reject rfl _))
      (.ite (.ite (queues_reject rfl _) (queues_accept rfl))
        (.ite (.seq fun name => queues_accept rfl) (queues_reject rfl _)))
  · apply Returns.ite (queues_accept rfl)
    exact .ite (queues_accept rfl) (.ite (queues_accept rfl) (queues_reject rfl _))
  · unfold headerFieldContent
    refine .ite (.bind (addRequestHeader_queue _) fun parser' h => queues_accept h) ?_
    exact .ite (queues_reject rfl _) (.ite (queues_accept rfl) (queues_reject rfl _))
  · exact queues_accept rfl
  · exact .ite (queues_accept rfl) (queues_reject rfl _)
  · apply Returns.ite _ (queues_reject rfl _)
    exact .ite (queues_accept rfl) (.ite (queues_enqueue rfl) (queues_accept rfl))
  · exact .ite (queues_enqueue rfl) (queues_accept rfl)
  · unfold readingChunkSize
    split
    · exact .ite (queues_reject rfl _) (queues_accept rfl)
    · exact .ite (queues_accept rfl) (.ite (queues_accept rfl) (queues_reject rfl _))
  · exact .ite (queues_accept rfl) (queues_accept rfl)
  · apply Returns.ite _ (queues_reject rfl _)
    exact .ite (queues_accept rfl) (.ite (queues_accept rfl) (.error _ _))
  · exact .ite (.ite (queues_accept rfl) (queues_reject rfl _)) (queues_accept rfl)
  · exact .ite (queues_accept rfl) (queues_reject rfl _)
  · exact .ite (queues_accept rfl) (queues_reject rfl _)
  · exact .ite (queues_enqueue rfl) (queues_reject rfl _)

end HttpRequestParser

theorem processHttpFragment_queues (parser : HttpRequestParser) (data : List Byte) :
    parser.Queues (processHttpFragment parser data) := by
  induction data generalizing parser with
  | nil => exact .ok List.prefix_rfl
  | cons c data ih =>
    refine .bind (parser.processByte_queues c) fun after hafter => ?_
    refine .ite ?_ (.ok hafter)
    exact fun result hresult => hafter.trans (ih after.2 result hresult)

namespace Conversation

/-- What the main task is going to put into the queue. -/
def onTheWay : MainState → List WorkElement
  | .enqueue elements => elements
  | _ => []

/-- The elements that start a response. -/
def starts (s : Conversation) : ℕ :=
  s.queue.count .START_RESPONSE + (onTheWay s.main).count .START_RESPONSE

/-- Without an element that starts a response no request waits; the requests are taken in order. -/
structure ServesAll (s : Conversation) : Prop where
  waiting : s.starts = 0 → s.parser.requestQHead = []
  order : s.parsed = s.served ++ s.parser.requestQHead

/-- After a read there is an element for each request that waits, and no request waits when an error
is to be answered. -/
def StartsEach (s s' : Conversation) : Prop :=
  s.main = .reading → s'.main = .enqueue [.START_RESPONSE] →
    s'.parser.requestQHead.length ≤ s.queue.count .START_RESPONSE + 1 ∧
      (s'.shouldError = true → s'.parser.requestQHead = [])

theorem startsEach_of_ne {s s' : Conversation} (hmain : s.main ≠ .reading) : StartsEach s s' :=
  fun hat => absurd hat hmain

/-- Each request that waits has an element that starts its response. -/
structure Served (s : Conversation) : Prop where
  enough : s.parser.requestQHead.length ≤ s.starts
  error : s.shouldError = true → s.parser.requestQHead = []
  order : s.parsed = s.served ++ s.parser.requestQHead

theorem served_make : Served makeHttpConversation where
  enough := Nat.zero_le _
  error := nofun
  order := rfl

theorem Served.servesAll {s : Conversation} (hs : Served s) : ServesAll s where
  waiting := fun hnone => List.eq_nil_of_length_eq_zero (Nat.le_zero.mp (hnone ▸ hs.enough))
  order := hs.order

/-- The requests are left alone, and no element that starts a response is lost. -/
theorem Served.kept {s s' : Conversation} (hs : Served s)
    (hrest : s'.parser = s.parser ∧ s'.parsed = s.parsed ∧ s'.served = s.served ∧
      s'.shouldError = s.shouldError) (hstarts : s.starts ≤ s'.starts) : Served s' := by
  obtain ⟨hparser, hparsed, hserved, herror⟩ := hrest
  constructor
  · rw [hparser]
    exact Nat.le_trans hs.enough hstarts
  · rw [herror, hparser]
    exact hs.error
  · rw [hparsed, hserved, hparser]
    exact hs.order

theorem starts_pop {s s' : Conversation} {e : WorkElement} {queue : List WorkElement}
    (hmain : s.main = .idle) (hqueue : s.queue = e :: queue) (he : e ≠ .START_RESPONSE)
    (hqueue' : s'.queue = queue) : s.starts ≤ s'.starts := by
  rw [starts, starts, hmain, hqueue, hqueue', List.count_cons_of_ne he]
  exact Nat.le_add_right _ _

/-- An update of the word only puts elements into the queue. -/
theorem starts_append {s s' : Conversation} {elements : List WorkElement}
    (hqueue : s'.queue = s.queue ++ elements) (hmain : onTheWay s.main = onTheWay s'.main) :
    s.starts ≤ s'.starts := by
  rw [starts, starts, hqueue, hmain, List.count_append]
  omega

theorem Served.readStep {s s' : Conversation} (hs : Served s) (h : ReadStep s s')
    (heach : StartsEach s s') : Served s' := by
  cases h with
  | closing hmain hregistered hclose =>
    refine hs.kept ⟨rfl, rfl, rfl, rfl⟩ ?_
    rw [starts, hmain]
    exact Nat.le_refl _
  | event hmain hregistered hclose =>
    refine hs.kept ⟨rfl, rfl, rfl, rfl⟩ ?_
    rw [starts, hmain]
    exact Nat.le_refl _
  | fails hmain =>
    refine hs.kept ⟨rfl, rfl, rfl, rfl⟩ ?_
    rw [starts, hmain]
    exact Nat.le_refl _
  | @http data goesOn parser hmain hws hdata hparse =>
    obtain ⟨henough, herror⟩ := heach hmain rfl
    refine ⟨henough, herror, ?_⟩
    have hqueues := processHttpFragment_queues s.parser data _ hparse
    change s.parsed ++ _ = s.served ++ _
    rw [hs.order, List.append_assoc]
    obtain ⟨more, hmore⟩ := hqueues
    rw [← hmore, List.drop_left]
  | ws handshakes hasWSMessage hmain hws =>
    refine hs.kept ⟨rfl, rfl, rfl, rfl⟩ ?_
    rw [starts, hmain]
    exact Nat.le_add_right _ _

theorem requestQHead_of_none {parser : HttpRequestParser}
    (h : parser.dequeueHttpRequest.1 = none) : parser.requestQHead = [] := by
  unfold HttpRequestParser.dequeueHttpRequest at h
  split at h
  · assumption
  · exact absurd h nofun

theorem requestQHead_of_some {parser : HttpRequestParser} {request : HttpRequest}
    (h : parser.dequeueHttpRequest.1 = some request) :
    ∃ more, parser.requestQHead = request :: more ∧
      parser.dequeueHttpRequest.2.requestQHead = more := by
  unfold HttpRequestParser.dequeueHttpRequest at h ⊢
  split at h
  · exact absurd h nofun
  · rename_i first more hqueue
    refine ⟨more, ?_, rfl⟩
    rw [hqueue, Option.some.inj h]

theorem respond_keeps (s : Conversation) (request : HttpRequest) (service : Service) :
    (s.respond request service).parser = s.parser ∧
      (s.respond request service).parsed = s.parsed ∧
      (s.respond request service).served = s.served ∧
      (s.respond request service).shouldError = s.shouldError ∧
      (s.respond request service).queue = s.queue := by
  cases service with
  | notFound =>
    simp only [respond]
    split_ifs <;> exact ⟨rfl, rfl, rfl, rfl, rfl⟩
  | webSocket accepted outputs =>
    simp only [respond]
    split_ifs <;> exact ⟨rfl, rfl, rfl, rfl, rfl⟩
  | subtask => exact ⟨rfl, rfl, rfl, rfl, rfl⟩
  | main fails =>
    simp only [respond]
    split_ifs <;> exact ⟨rfl, rfl, rfl, rfl, rfl⟩

theorem Served.workStep {s s' : Conversation} (hs : Served s) (h : WorkStep s s') : Served s' := by
  cases h with
  | @enqueue element more hmain =>
    refine hs.kept ⟨rfl, rfl, rfl, rfl⟩ ?_
    rw [starts, starts, hmain]
    simp only [onTheWay, List.count_append, List.count_cons, List.count_nil]
    omega
  | enqueued hmain =>
    refine hs.kept ⟨rfl, rfl, rfl, rfl⟩ ?_
    rw [starts, hmain]
    exact Nat.le_refl _
  | respondError hmain hqueue herror =>
    have hnone := hs.error herror
    refine ⟨?_, fun _ => hnone, hs.order⟩
    change s.parser.requestQHead.length ≤ _
    rw [hnone]
    exact Nat.zero_le _
  | noRequest hmain hqueue herror hnone =>
    have hempty := requestQHead_of_none hnone
    refine ⟨?_, fun _ => hempty, hs.order⟩
    change s.parser.requestQHead.length ≤ _
    rw [hempty]
    exact Nat.zero_le _
  | @respond queue request service hmain hqueue herror hrequest =>
    obtain ⟨more, hmore, hafter⟩ := requestQHead_of_some hrequest
    obtain ⟨hparser, hparsed, hserved, herror', hqueue'⟩ := respond_keeps { s with
      queue
      parser := s.parser.dequeueHttpRequest.2
      served := s.served ++ [request] } request service
    have henough := hs.enough
    constructor
    · rw [hparser, hafter, starts, hqueue']
      rw [starts, hmain, hmore, hqueue, List.count_cons_self, List.length_cons] at henough
      simp only [onTheWay, List.count_nil] at henough
      have hmany : more.length ≤ queue.count .START_RESPONSE := by omega
      exact Nat.le_trans hmany (Nat.le_add_right _ _)
    · rw [herror']
      intro hset
      exact absurd (herror.symm.trans hset) nofun
    · rw [hparsed, hserved, hparser, hafter, List.append_assoc]
      rw [hs.order, hmore]
      rfl
  | message outputs hmain hqueue hws =>
    exact hs.kept ⟨rfl, rfl, rfl, rfl⟩ (starts_pop hmain hqueue nofun rfl)
  | noSession hmain hqueue hws =>
    exact hs.kept ⟨rfl, rfl, rfl, rfl⟩ (starts_pop hmain hqueue nofun rfl)
  | output hmain hqueue =>
    exact hs.kept ⟨rfl, rfl, rfl, rfl⟩ (starts_pop hmain hqueue nofun rfl)
  | handshake hmain hqueue =>
    exact hs.kept ⟨rfl, rfl, rfl, rfl⟩ (starts_pop hmain hqueue nofun rfl)

theorem Served.closeStep {s s' : Conversation} (hs : Served s) (h : CloseStep s s') :
    Served s' := by
  cases h with
  | considerReady hmain hqueue htasks hnot =>
    exact hs.kept ⟨rfl, rfl, rfl, rfl⟩ (starts_pop hmain hqueue nofun rfl)
  | considerNotReady hmain hqueue hready =>
    exact hs.kept ⟨rfl, rfl, rfl, rfl⟩ (starts_pop hmain hqueue nofun rfl)
  | enqueueClose hmain =>
    refine hs.kept ⟨rfl, rfl, rfl, rfl⟩ (starts_append rfl ?_)
    rw [hmain]
    rfl
  | closeEnqueued hmain =>
    refine hs.kept ⟨rfl, rfl, rfl, rfl⟩ ?_
    rw [starts, hmain]
    exact Nat.le_refl _
  | abandon hmain hqueue htasks =>
    exact hs.kept ⟨rfl, rfl, rfl, rfl⟩ (starts_pop hmain hqueue nofun rfl)
  | close hmain hqueue htasks =>
    exact hs.kept ⟨rfl, rfl, rfl, rfl⟩ (starts_pop hmain hqueue nofun rfl)
  | @serialize at' hmain =>
    refine hs.kept ⟨rfl, rfl, rfl, rfl⟩ (starts_append rfl ?_)
    rw [hmain]
    cases (at'.step false s.word).next with
    | none => rfl
    | some next => rfl

theorem Served.startStep {s s' : Conversation} (hs : Served s) (h : StartStep s s') :
    Served s' := by
  have hstarts : s.starts ≤ s'.starts := by
    cases h with
    | startRunningLoad hmain =>
      rw [starts, hmain]
      exact Nat.le_refl _
    | startRunning hmain =>
      rw [starts, hmain]
      exact Nat.le_refl _
    | startRunningFails hmain hne =>
      rw [starts, hmain]
      exact Nat.le_refl _
    | startTask hmain =>
      rw [starts, hmain]
      exact Nat.le_refl _
  cases h <;> exact hs.kept ⟨rfl, rfl, rfl, rfl⟩ hstarts

theorem Served.taskStep {s s' : Conversation} (hs : Served s) (h : TaskStep s s') :
    Served s' := by
  cases h with
  | begin htasks => exact hs.kept ⟨rfl, rfl, rfl, rfl⟩ (Nat.le_refl _)
  | serves htasks => exact hs.kept ⟨rfl, rfl, rfl, rfl⟩ (Nat.le_refl _)
  | fails htasks => exact hs.kept ⟨rfl, rfl, rfl, rfl⟩ (Nat.le_refl _)
  | failed htasks => exact hs.kept ⟨rfl, rfl, rfl, rfl⟩ (starts_append rfl rfl)
  | ending htasks => exact hs.kept ⟨rfl, rfl, rfl, rfl⟩ (starts_append rfl rfl)

theorem Served.step {s s' : Conversation} (hs : Served s) (h : Step s s')
    (heach : StartsEach s s') : Served s' := by
  cases h with
  | read h => exact hs.readStep h heach
  | work h => exact hs.workStep h
  | close h => exact hs.closeStep h
  | start h => exact hs.startStep h
  | task h => exact hs.taskStep h

theorem run_served {s : Conversation} (h : Run StartsEach makeHttpConversation s) : Served s := by
  induction h with
  | refl => exact served_make
  | tail hrun hstep hmeets ih => exact ih.step hstep hmeets

/-- Every request is served. -/
theorem serves_all {s : Conversation} (hrun : Run StartsEach makeHttpConversation s) :
    ServesAll s :=
  (run_served hrun).servesAll

theorem serves_all_get : ∃ s, Run StartsEach makeHttpConversation s ∧ s.parsed.length = 1 ∧
    s.starts = 0 ∧ ServesAll s := by
  obtain ⟨parser, hparse, hlength⟩ :=
    exists_of_accepts (p := fun parser => parser.requestQHead.length = 1)
      (show accepts makeHttpRequestParser getText _ = true by decide +kernel)
  obtain ⟨request, hrequest⟩ : ∃ request, parser.requestQHead = [request] :=
    List.length_eq_one_iff.mp (of_decide_eq_true hlength)
  have hfirst : parser.dequeueHttpRequest.1 = some request := by
    rw [HttpRequestParser.dequeueHttpRequest, hrequest]
  have hstart : Run StartsEach makeHttpConversation _ := .refl
  have hevent := hstart.tail (.read (.event rfl rfl rfl))
    (startsEach_of_ne (by simp [makeHttpConversation]))
  have hne : getText ≠ [] := List.cons_ne_nil _ _
  have hone : parser.requestQHead.length ≤ 0 + 1 := by
    rw [hrequest]
    exact Nat.le_refl 1
  have hread := hevent.tail (.read (@ReadStep.http _ getText true parser rfl rfl hne hparse))
    fun _ _ => ⟨hone, fun herror => absurd herror Bool.false_ne_true⟩
  have henqueue := hread.tail (.work (.enqueue rfl)) (startsEach_of_ne (by simp))
  have henqueued := henqueue.tail (.work (.enqueued rfl)) (startsEach_of_ne (by simp))
  have hrespond := henqueued.tail (.work (.respond (.main false) rfl rfl rfl hfirst))
    (startsEach_of_ne (by simp))
  have hparsed : ([] ++ parser.requestQHead.drop 0).length = 1 := by
    rw [hrequest]
    rfl
  exact ⟨_, hrespond, hparsed, rfl, serves_all hrespond⟩

/-- Two requests that come in one read. -/
theorem not_serves_all : ¬∀ s, AnyRun makeHttpConversation s → ServesAll s := by
  intro h
  obtain ⟨parser, hparse, hlength⟩ :=
    exists_of_accepts (p := fun parser => parser.requestQHead.length = 2)
      (show accepts makeHttpRequestParser (getText ++ getText) _ = true by decide +kernel)
  obtain ⟨request, second, hrequests⟩ : ∃ request second, parser.requestQHead = [request, second] :=
    List.length_eq_two.mp (of_decide_eq_true hlength)
  have hfirst : parser.dequeueHttpRequest.1 = some request := by
    rw [HttpRequestParser.dequeueHttpRequest, hrequests]
  have hmore : parser.dequeueHttpRequest.2.requestQHead = [second] := by
    rw [HttpRequestParser.dequeueHttpRequest, hrequests]
  have hevent := anyRun (.refl : AnyRun makeHttpConversation _) (.read (.event rfl rfl rfl))
  have hne : getText ++ getText ≠ [] := List.cons_ne_nil _ _
  have hread := anyRun hevent
    (.read (@ReadStep.http _ (getText ++ getText) true parser rfl rfl hne hparse))
  have henqueue := anyRun hread (.work (.enqueue rfl))
  have henqueued := anyRun henqueue (.work (.enqueued rfl))
  have hrespond := anyRun henqueued (.work (.respond (.main false) rfl rfl rfl hfirst))
  have hnone := (h _ hrespond).waiting rfl
  exact List.cons_ne_nil _ _ (hmore.symm.trans hnone)

end Conversation
end Http
end ZoweCommon
