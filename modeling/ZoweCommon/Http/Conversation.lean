import ZoweCommon.Http.Parser

/-! A conversation of the server: the main task reads its socket and handles the work elements for
it, while subtasks serve requests. A step is one access to what the tasks share. -/
namespace ZoweCommon
namespace Http

/-- The word that is updated by compare and swap. -/
structure HttpConversationSerialize where
  shouldClose : Bool := false
  considerCloseEnqueued : Bool := false
  closeEnqueued : Bool := false
  runningTasks : BitVec 16 := 0
  deriving DecidableEq

inductive WorkElement
  | START_RESPONSE
  | WS_MESSAGE_RECEIVED
  | WS_OUTPUT
  | WS_CLOSE_HANDSHAKE
  | CLOSE_CONVERSATION
  | CONSIDER_CLOSE_CONVERSATION
  deriving DecidableEq

/-- Where a task is in `serializeConsiderCloseEnqueue`. -/
inductive Serialize
  | load
  | swap (compare : HttpConversationSerialize)
  | enqueue
  deriving DecidableEq

namespace HttpConversationSerialize

def replace (compare : HttpConversationSerialize) (subtaskTerm : Bool) :
    HttpConversationSerialize :=
  let runningTasks := if subtaskTerm then compare.runningTasks - 1 else compare.runningTasks
  { compare with
    runningTasks
    considerCloseEnqueued :=
      if runningTasks = 0 ∧ compare.shouldClose ∧ !compare.considerCloseEnqueued then true
      else compare.considerCloseEnqueued }

end HttpConversationSerialize

/-- What a step in `serializeConsiderCloseEnqueue` leaves: the word, what is put into the queue, and
where the task is then, if it has not returned. -/
structure Serialized where
  word : HttpConversationSerialize
  enqueued : List WorkElement
  next : Option Serialize

def Serialize.step (subtaskTerm : Bool) (word : HttpConversationSerialize) : Serialize → Serialized
  | .load => ⟨word, [], some (.swap word)⟩
  | .swap compare =>
    let replace := compare.replace subtaskTerm
    if compare = replace then ⟨word, [], none⟩
    else if word = compare then
      ⟨replace, [],
        if !compare.considerCloseEnqueued && replace.considerCloseEnqueued then some .enqueue
        else none⟩
    else ⟨word, [], some (.swap word)⟩
  | .enqueue => ⟨word, [.CONSIDER_CLOSE_CONVERSATION], none⟩

/-- Where the main task is: `reading` a socket that is not to be closed, on its way to put elements
into the queue, in one of the updates of the word, or closing. -/
inductive MainState
  | idle
  | reading
  | enqueue (elements : List WorkElement)
  | serialize (at' : Serialize)
  | startRunning (compare : Option HttpConversationSerialize)
  | startTask
  | enqueueClose
  | closeEnqueued
  deriving DecidableEq

/-- Where a subtask is: about to look whether the conversation is still open, serving the request, or
in the update after a failure or at its end. -/
inductive TaskState
  | begun
  | serving
  | failed (at' : Serialize)
  | ending (at' : Serialize)
  deriving DecidableEq

/-- What there is for a request. `outputs` counts what a callback of a web socket sends. -/
inductive Service
  | notFound
  | webSocket (accepted : Bool) (outputs : ℕ)
  | subtask
  | main (fails : Bool)

/-- The queue has only the elements for the conversation. `parsed` are all requests that the parser
has completed, `served` those that were taken for service; `considered` says that the close was
considered, and `closes` how often it was carried out. -/
structure Conversation where
  word : HttpConversationSerialize := {}
  registered : Bool := true
  wsSession : Bool := false
  shouldError : Bool := false
  parser : HttpRequestParser := makeHttpRequestParser
  queue : List WorkElement := []
  main : MainState := .idle
  tasks : List TaskState := []
  parsed : List HttpRequest := []
  served : List HttpRequest := []
  considered : Bool := false
  closes : ℕ := 0

def makeHttpConversation : Conversation := {}

namespace Conversation

/-- Stored as a byte of its own. -/
def setShouldClose (s : Conversation) : Conversation :=
  { s with word := { s.word with shouldClose := true } }

/-- What `doHttpResponseWork` does with a request. -/
def respond (s : Conversation) (request : HttpRequest) : Service → Conversation
  | .notFound => if request.keepAlive then s else s.setShouldClose
  | .webSocket accepted outputs =>
    if request.isWebSocket && accepted then
      { s with wsSession := true, main := .enqueue (List.replicate outputs .WS_OUTPUT) }
    else s
  | .subtask => { s with main := .startRunning none }
  | .main fails => if fails then { s.setShouldClose with main := .serialize .load } else s

/-- What `handlePeerSocketRead` does. -/
inductive ReadStep (s : Conversation) : Conversation → Prop
  | closing (hmain : s.main = .idle) (hregistered : s.registered = true)
      (hclose : s.word.shouldClose = true) :
      ReadStep s { s with registered := false, main := .serialize .load, considered := true }
  | event (hmain : s.main = .idle) (hregistered : s.registered = true)
      (hclose : s.word.shouldClose = false) : ReadStep s { s with main := .reading }
  | fails (hmain : s.main = .reading) :
      ReadStep s { s.setShouldClose with main := .idle }
  | http {data : List Byte} {goesOn : Bool} {parser : HttpRequestParser}
      (hmain : s.main = .reading) (hws : s.wsSession = false) (hdata : data ≠ [])
      (hparse : processHttpFragment s.parser data = .ok (goesOn, parser)) :
      ReadStep s { s with
        parser
        shouldError := s.shouldError || !goesOn
        parsed := s.parsed ++ parser.requestQHead.drop s.parser.requestQHead.length
        main := .enqueue [.START_RESPONSE] }
  | ws (handshakes : ℕ) (hasWSMessage : Bool) (hmain : s.main = .reading)
      (hws : s.wsSession = true) :
      ReadStep s { s with main := .enqueue (List.replicate handshakes .WS_CLOSE_HANDSHAKE ++
        if hasWSMessage then [.WS_MESSAGE_RECEIVED] else []) }

/-- What `httpWorkElementHandler` does with the elements that are not for closing, and how elements
are put into the queue. -/
inductive WorkStep (s : Conversation) : Conversation → Prop
  | enqueue {element : WorkElement} {more : List WorkElement}
      (hmain : s.main = .enqueue (element :: more)) :
      WorkStep s { s with queue := s.queue ++ [element], main := .enqueue more }
  | enqueued (hmain : s.main = .enqueue []) : WorkStep s { s with main := .idle }
  | respondError {queue : List WorkElement} (hmain : s.main = .idle)
      (hqueue : s.queue = .START_RESPONSE :: queue) (herror : s.shouldError = true) :
      WorkStep s { s with queue }
  | noRequest {queue : List WorkElement} (hmain : s.main = .idle)
      (hqueue : s.queue = .START_RESPONSE :: queue) (herror : s.shouldError = false)
      (hnone : s.parser.dequeueHttpRequest.1 = none) : WorkStep s { s with queue }
  | respond {queue : List WorkElement} {request : HttpRequest}
      (service : Service) (hmain : s.main = .idle) (hqueue : s.queue = .START_RESPONSE :: queue)
      (herror : s.shouldError = false)
      (hrequest : s.parser.dequeueHttpRequest.1 = some request) :
      WorkStep s (respond { s with
        queue
        parser := s.parser.dequeueHttpRequest.2
        served := s.served ++ [request] } request service)
  | message {queue : List WorkElement} (outputs : ℕ) (hmain : s.main = .idle)
      (hqueue : s.queue = .WS_MESSAGE_RECEIVED :: queue) (hws : s.wsSession = true) :
      WorkStep s { s with queue, main := .enqueue (List.replicate outputs .WS_OUTPUT) }
  | noSession {queue : List WorkElement} (hmain : s.main = .idle)
      (hqueue : s.queue = .WS_MESSAGE_RECEIVED :: queue) (hws : s.wsSession = false) :
      WorkStep s { s.setShouldClose with queue }
  | output {queue : List WorkElement} (hmain : s.main = .idle)
      (hqueue : s.queue = .WS_OUTPUT :: queue) : WorkStep s { s with queue }
  | handshake {queue : List WorkElement} (hmain : s.main = .idle)
      (hqueue : s.queue = .WS_CLOSE_HANDSHAKE :: queue) : WorkStep s { s.setShouldClose with queue }

inductive CloseStep (s : Conversation) : Conversation → Prop
  | considerReady {queue : List WorkElement} (hmain : s.main = .idle)
      (hqueue : s.queue = .CONSIDER_CLOSE_CONVERSATION :: queue)
      (htasks : s.word.runningTasks = 0) (hclose : s.word.closeEnqueued = false) :
      CloseStep s { s with queue, main := .enqueueClose, considered := true }
  | considerNotReady {queue : List WorkElement} (hmain : s.main = .idle)
      (hqueue : s.queue = .CONSIDER_CLOSE_CONVERSATION :: queue)
      (hready : ¬(s.word.runningTasks = 0 ∧ s.word.closeEnqueued = false)) :
      CloseStep s { s with queue, considered := true }
  | enqueueClose (hmain : s.main = .enqueueClose) :
      CloseStep s { s with queue := s.queue ++ [.CLOSE_CONVERSATION], main := .closeEnqueued }
  | closeEnqueued (hmain : s.main = .closeEnqueued) :
      CloseStep s { s with word := { s.word with closeEnqueued := true }, main := .idle }
  | abandon {queue : List WorkElement} (hmain : s.main = .idle)
      (hqueue : s.queue = .CLOSE_CONVERSATION :: queue) (htasks : 0 < s.word.runningTasks.toInt) :
      CloseStep s { s with queue }
  | close {queue : List WorkElement} (hmain : s.main = .idle)
      (hqueue : s.queue = .CLOSE_CONVERSATION :: queue) (htasks : ¬0 < s.word.runningTasks.toInt) :
      CloseStep s { s with queue, registered := false, closes := s.closes + 1 }
  | serialize {at' : Serialize} (hmain : s.main = .serialize at') :
      CloseStep s { s with
        word := (at'.step false s.word).word
        queue := s.queue ++ (at'.step false s.word).enqueued
        main := ((at'.step false s.word).next.map MainState.serialize).getD .idle }

inductive StartStep (s : Conversation) : Conversation → Prop
  | startRunningLoad (hmain : s.main = .startRunning none) :
      StartStep s { s with main := .startRunning (some s.word) }
  | startRunning (hmain : s.main = .startRunning (some s.word)) :
      StartStep s { s with
        word := { s.word with runningTasks := s.word.runningTasks + 1 }
        main := .startTask }
  | startRunningFails {compare : HttpConversationSerialize}
      (hmain : s.main = .startRunning (some compare)) (hne : s.word ≠ compare) :
      StartStep s { s with main := .startRunning (some s.word) }
  | startTask (hmain : s.main = .startTask) :
      StartStep s { s with tasks := s.tasks ++ [.begun], main := .idle }

/-- The steps of a subtask. -/
inductive TaskStep (s : Conversation) : Conversation → Prop
  | begin {before after : List TaskState}
      (htasks : s.tasks = before ++ .begun :: after) :
      TaskStep s { s with
        tasks := before ++ (if s.word.shouldClose then .ending .load else .serving) :: after }
  | serves {before after : List TaskState}
      (htasks : s.tasks = before ++ .serving :: after) :
      TaskStep s { s with tasks := before ++ .ending .load :: after }
  | fails {before after : List TaskState}
      (htasks : s.tasks = before ++ .serving :: after) :
      TaskStep s { s.setShouldClose with tasks := before ++ .failed .load :: after }
  | failed {before after : List TaskState} {at' : Serialize}
      (htasks : s.tasks = before ++ .failed at' :: after) :
      TaskStep s { s with
        word := (at'.step false s.word).word
        queue := s.queue ++ (at'.step false s.word).enqueued
        tasks := before ++
          ((at'.step false s.word).next.map TaskState.failed).getD (.ending .load) :: after }
  | ending {before after : List TaskState} {at' : Serialize}
      (htasks : s.tasks = before ++ .ending at' :: after) :
      TaskStep s { s with
        word := (at'.step true s.word).word
        queue := s.queue ++ (at'.step true s.word).enqueued
        tasks := before ++ (((at'.step true s.word).next.map TaskState.ending).toList ++ after) }

/-- The steps of the main task and of the subtasks. -/
inductive Step (s s' : Conversation) : Prop
  | read (h : ReadStep s s')
  | work (h : WorkStep s s')
  | close (h : CloseStep s s')
  | start (h : StartStep s s')
  | task (h : TaskStep s s')

/-- The runs whose steps all meet a condition. -/
inductive Run (P : Conversation → Conversation → Prop) (s : Conversation) : Conversation → Prop
  | refl : Run P s s
  | tail {s₁ s₂ : Conversation} (h : Run P s s₁) (hstep : Step s₁ s₂) (hmeets : P s₁ s₂) :
      Run P s s₂

end Conversation

end Http
end ZoweCommon
