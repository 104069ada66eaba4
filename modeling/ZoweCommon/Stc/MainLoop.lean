import Mathlib.Data.BitVec

/-! The main loop of a started task: it waits for sockets and for the queue of work elements, into
which any task puts elements. A step is one access to what the tasks share. -/
namespace ZoweCommon
namespace Stc

def STC_MAX_MODULES : ℕ := 100

structure WorkElementPrefix where
  address : ℕ
  payloadCode : BitVec 32
  deriving DecidableEq

/-- Of a module only whether it has a handler for work elements. -/
structure STCModule where
  workElementHandler : Bool
  deriving DecidableEq

def PAYLOAD_CODE_TO_INDEX (code : BitVec 32) : ℕ := ((code &&& 0xFFFF0000) >>> 16).toNat

/-- What `stcBaseSelect` returns. -/
inductive SelectStatus
  | STC_BASE_SELECT_FAIL
  | STC_BASE_SELECT_TIMEOUT
  | STC_BASE_SELECT_NOTHING_OBVIOUS_HAPPENED
  | ready (workElements sockets : Bool)
  deriving DecidableEq

inductive Platform
  | zos
  | windows
  | aix
  | linux
  deriving DecidableEq

def Platform.selectClears : Platform → Bool
  | .aix | .linux => true
  | _ => false

/-- `resetQueuedWorkEvent` does something. -/
def Platform.resets : Platform → Bool
  | .aix => false
  | _ => true

/-- The event is reset in the loop over the ready sockets as well. -/
def Platform.socketsReset : Platform → Bool
  | .windows => true
  | _ => false

/-- What the main task runs of the modules. -/
inductive Handler
  | sockets
  | background
  | workElement
  deriving DecidableEq

/-- Where the main task is. `posting` is between the two statements of `stcEnqueueWork`, called by a
handler. -/
inductive MainLoop
  | test
  | wait
  | clear (status : SelectStatus)
  | selected (status : SelectStatus)
  | reset (readReady : Bool)
  | handling (handler : Handler)
  | posting (handler : Handler)
  | drain
  | stopped
  deriving DecidableEq

/-- `posts` counts the other tasks that have inserted an element and have not posted yet. `inserted`,
`removed` and `dispatched` are all elements for which that was done. -/
structure STCBase where
  workQueue : List WorkElementPrefix := []
  qReady : Bool := false
  stopRequested : Bool := false
  modules : ℕ → Option STCModule
  main : MainLoop := .test
  posts : ℕ := 0
  inserted : List WorkElementPrefix := []
  removed : List WorkElementPrefix := []
  dispatched : List WorkElementPrefix := []

/-- After the first `resetQueuedWorkEvent`. -/
def afterReset (modules : ℕ → Option STCModule) : STCBase := { modules }

namespace STCBase

def handles (base : STCBase) (element : WorkElementPrefix) : Bool :=
  match base.modules (PAYLOAD_CODE_TO_INDEX element.payloadCode) with
  | some module => module.workElementHandler
  | none => false

def qInsert (base : STCBase) (element : WorkElementPrefix) : STCBase :=
  { base with
    workQueue := base.workQueue ++ [element]
    inserted := base.inserted ++ [element] }

def qRemove (base : STCBase) (element : WorkElementPrefix) (more : List WorkElementPrefix) :
    STCBase :=
  { base with workQueue := more, removed := base.removed ++ [element] }

inductive TaskStep (base : STCBase) : STCBase → Prop
  | insert (element : WorkElementPrefix) :
      TaskStep base { base.qInsert element with posts := base.posts + 1 }
  | post (hposts : 0 < base.posts) :
      TaskStep base { base with qReady := true, posts := base.posts - 1 }
  | stop : TaskStep base { base with stopRequested := true }
  | register (index : ℕ) (module : STCModule) (hindex : index < STC_MAX_MODULES) :
      TaskStep base { base with
        modules := fun i => if i = index then some module else base.modules i }

/-- The steps of `stcBaseMainLoop`. A handler may enqueue work itself. -/
inductive MainStep (platform : Platform) (base : STCBase) : STCBase → Prop
  | test (hmain : base.main = .test) :
      MainStep platform base { base with
        main := if base.stopRequested then .stopped else .wait }
  | wait (status : SelectStatus) (hmain : base.main = .wait) :
      MainStep platform base { base with
        main := if platform.selectClears then .clear status else .selected status }
  | clear {status : SelectStatus} (hmain : base.main = .clear status) :
      MainStep platform base { base with qReady := false, main := .selected status }
  | notCleared {status : SelectStatus} (hmain : base.main = .clear status) :
      MainStep platform base { base with main := .selected status }
  | fail (hmain : base.main = .selected .STC_BASE_SELECT_FAIL) :
      MainStep platform base { base with stopRequested := true, main := .stopped }
  | stop {status : SelectStatus} (hmain : base.main = .selected status)
      (hstop : base.stopRequested = true) : MainStep platform base { base with main := .stopped }
  | selected {status : SelectStatus} (hmain : base.main = .selected status)
      (hstatus : status ≠ .STC_BASE_SELECT_FAIL) (hstop : base.stopRequested = false) :
      MainStep platform base { base with
        main := .reset (match status with
          | .ready _ sockets => sockets
          | _ => false) }
  | reset {readReady : Bool} (hmain : base.main = .reset readReady) :
      MainStep platform base { base with
        qReady := base.qReady && !platform.resets
        main := .handling (if readReady then .sockets else .background) }
  | socketsReset (hmain : base.main = .handling .sockets) (hreset : platform.socketsReset = true) :
      MainStep platform base { base with qReady := false }
  | insert {handler : Handler} (element : WorkElementPrefix)
      (hmain : base.main = .handling handler) :
      MainStep platform base { base.qInsert element with main := .posting handler }
  | post {handler : Handler} (hmain : base.main = .posting handler) :
      MainStep platform base { base with qReady := true, main := .handling handler }
  | socketsHandled (hmain : base.main = .handling .sockets) :
      MainStep platform base { base with main := .handling .background }
  | backgroundHandled (hmain : base.main = .handling .background) :
      MainStep platform base { base with main := .drain }
  | drained (hmain : base.main = .drain) (hqueue : base.workQueue = []) :
      MainStep platform base { base with main := .test }
  | dispatch {element : WorkElementPrefix} {more : List WorkElementPrefix}
      (hmain : base.main = .drain) (hqueue : base.workQueue = element :: more)
      (hindex : PAYLOAD_CODE_TO_INDEX element.payloadCode < STC_MAX_MODULES)
      (hmodule : base.handles element = true) :
      MainStep platform base { base.qRemove element more with
        dispatched := base.dispatched ++ [element]
        main := .handling .workElement }
  | notFound {element : WorkElementPrefix} {more : List WorkElementPrefix}
      (hmain : base.main = .drain) (hqueue : base.workQueue = element :: more)
      (hindex : PAYLOAD_CODE_TO_INDEX element.payloadCode < STC_MAX_MODULES)
      (hmodule : base.handles element = false) :
      MainStep platform base { base.qRemove element more with main := .test }
  | workElementHandled (hmain : base.main = .handling .workElement) :
      MainStep platform base { base with main := .drain }

inductive Step (platform : Platform) (base base' : STCBase) : Prop
  | task (h : TaskStep base base')
  | main (h : MainStep platform base base')

/-- The runs whose steps all meet a condition. -/
inductive Run (platform : Platform) (P : STCBase → STCBase → Prop) (base : STCBase) :
    STCBase → Prop
  | refl : Run platform P base base
  | tail {base₁ base₂ : STCBase} (h : Run platform P base base₁) (hstep : Step platform base₁ base₂)
      (hmeets : P base₁ base₂) : Run platform P base base₂

end STCBase

end Stc
end ZoweCommon
