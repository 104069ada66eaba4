import Mathlib.Logic.Relation
import ZoweCommon.Lib.Chain

/-! The queue that is serialized by a counter and the instruction PLO, used by any number of
threads at once. A step is one access to what the threads share. -/
namespace ZoweCommon
namespace LockFreeQueue

/-- The store behind the tail: to the `next` of an element, by its address, or to the tail. -/
inductive Thing3
  | next (last : Option ℕ)
  | tail

/-- Where a thread is in a call, and its local variables there. The number of commits when the
counter was read goes with `lockCounter`, for the proofs. -/
inductive ThreadState
  | idle
  | enqCounter (newElement : ℕ)
  | enqHead (newElement lockCounter seen : ℕ)
  | enqHeadAgain (newElement lockCounter seen : ℕ)
  | enqTail (newElement lockCounter seen : ℕ) (desiredQHead : Option ℕ)
  | enqTailAgain (newElement lockCounter seen : ℕ) (desiredQHead last : Option ℕ)
  | enqSwap (newElement lockCounter seen : ℕ) (desiredQHead : Option ℕ) (thing3 : Thing3)
  | deqCounter
  | deqHead (lockCounter seen : ℕ)
  | deqLoad (lockCounter seen currentHead : ℕ)
  | deqTail (lockCounter seen currentHead : ℕ) (desiredQHead : Option ℕ)
  | deqSwap (lockCounter seen currentHead : ℕ) (desiredQHead desiredQTail : Option ℕ)

inductive Commit
  | enqueue (element : ℕ)
  | dequeue (element : ℕ)

/-- `wild` says that something was stored through the address of `next` of no element. -/
structure State (T : Type) where
  counter : ℕ
  head : Option ℕ
  tail : Option ℕ
  next : ℕ → Option ℕ
  wild : Bool
  threads : T → ThreadState
  commits : List Commit

/-- The counter wraps back to 1 before it would become negative. -/
def newCounter (LONG_MAX lockCounter : ℕ) : ℕ :=
  if lockCounter + 1 > LONG_MAX then 1 else lockCounter + 1

/-- The element that a thread is about to put in. -/
def enqueuing : ThreadState → Option ℕ
  | .enqCounter e => some e
  | .enqHead e _ _ => some e
  | .enqHeadAgain e _ _ => some e
  | .enqTail e _ _ _ => some e
  | .enqTailAgain e _ _ _ _ => some e
  | .enqSwap e _ _ _ _ => some e
  | _ => none

/-- The number of commits when a thread read the counter. -/
def seen : ThreadState → Option ℕ
  | .enqHead _ _ n => some n
  | .enqHeadAgain _ _ n => some n
  | .enqTail _ _ n _ => some n
  | .enqTailAgain _ _ n _ _ => some n
  | .enqSwap _ _ n _ _ => some n
  | .deqHead _ n => some n
  | .deqLoad _ n _ => some n
  | .deqTail _ n _ _ => some n
  | .deqSwap _ n _ _ _ => some n
  | _ => none

/-- The elements from a pointer on. -/
inductive Reaches (next : ℕ → Option ℕ) : Option ℕ → ℕ → Prop
  | here (e : ℕ) : Reaches next (some e) e
  | next {e other : ℕ} (h : Reaches next (next e) other) : Reaches next (some e) other

/-- The PLO path begins with the counter 1. -/
def makeQueue (T : Type) (next : ℕ → Option ℕ) : State T where
  counter := 1
  head := none
  tail := none
  next := next
  wild := false
  threads := fun _ => .idle
  commits := []

namespace State

variable {T : Type} [DecidableEq T]

def goto (s : State T) (t : T) (at' : ThreadState) : State T :=
  { s with threads := Function.update s.threads t at' }

def setNext (s : State T) (e : ℕ) (p : Option ℕ) : State T :=
  { s with next := Function.update s.next e p }

/-- An element that is neither in the queue nor on its way into it. -/
def Free (s : State T) (e : ℕ) : Prop :=
  ¬Reaches s.next s.head e ∧ ∀ t, enqueuing (s.threads t) ≠ some e

/-- The three stores of an enqueuing PLO, in their order. -/
def storeEnqueue (s : State T) (e : ℕ) (desiredQHead : Option ℕ) : Thing3 → State T
  | .next (some last) =>
    { s with head := desiredQHead, tail := some e, next := Function.update s.next last (some e) }
  | .next none => { s with head := desiredQHead, tail := some e, wild := true }
  | .tail => { s with head := desiredQHead, tail := some e }

/-- The three stores of a dequeuing PLO. -/
def storeDequeue (s : State T) (currentHead : ℕ) (desiredQHead desiredQTail : Option ℕ) : State T :=
  { s with
    head := desiredQHead
    tail := desiredQTail
    next := Function.update s.next currentHead none }

def commit (s : State T) (counter : ℕ) (commit : Commit) : State T :=
  { s with counter := counter, commits := s.commits ++ [commit] }

end State

open State

variable {T : Type} [DecidableEq T]

/-- Every load is a step of its own, and so is each PLO. A failing PLO returns the counter. -/
inductive Step (LONG_MAX : ℕ) : State T → State T → Prop
  | enqueue {s : State T} (t : T) (e : ℕ) (hidle : s.threads t = .idle) (hfree : s.Free e) :
      Step LONG_MAX s ((s.setNext e none).goto t (.enqCounter e))
  | enqCounter {s : State T} {t : T} {e : ℕ} (ht : s.threads t = .enqCounter e) :
      Step LONG_MAX s (s.goto t (.enqHead e s.counter s.commits.length))
  | enqHeadNull {s : State T} {t : T} {e c n : ℕ} (ht : s.threads t = .enqHead e c n)
      (hnull : s.head = none) : Step LONG_MAX s (s.goto t (.enqTail e c n (some e)))
  | enqHead {s : State T} {t : T} {e c n : ℕ} (ht : s.threads t = .enqHead e c n)
      (hnull : s.head ≠ none) : Step LONG_MAX s (s.goto t (.enqHeadAgain e c n))
  | enqHeadAgain {s : State T} {t : T} {e c n : ℕ} (ht : s.threads t = .enqHeadAgain e c n) :
      Step LONG_MAX s (s.goto t (.enqTail e c n s.head))
  | enqTail {s : State T} {t : T} {e c n : ℕ} {desiredQHead : Option ℕ}
      (ht : s.threads t = .enqTail e c n desiredQHead) :
      Step LONG_MAX s (s.goto t (.enqTailAgain e c n desiredQHead s.tail))
  | enqTailAgain {s : State T} {t : T} {e c n : ℕ} {desiredQHead last : Option ℕ}
      (ht : s.threads t = .enqTailAgain e c n desiredQHead last) :
      Step LONG_MAX s (s.goto t
        (.enqSwap e c n desiredQHead (if s.tail ≠ none then .next last else .tail)))
  | enqSwap {s : State T} {t : T} {e c n : ℕ} {desiredQHead : Option ℕ} {thing3 : Thing3}
      (ht : s.threads t = .enqSwap e c n desiredQHead thing3) (heq : s.counter = c) :
      Step LONG_MAX s (((s.storeEnqueue e desiredQHead thing3).commit (newCounter LONG_MAX c)
        (.enqueue e)).goto t .idle)
  | enqSwapFails {s : State T} {t : T} {e c n : ℕ} {desiredQHead : Option ℕ} {thing3 : Thing3}
      (ht : s.threads t = .enqSwap e c n desiredQHead thing3) (hne : s.counter ≠ c) :
      Step LONG_MAX s (s.goto t (.enqHead e s.counter s.commits.length))
  | dequeue {s : State T} (t : T) (hidle : s.threads t = .idle) :
      Step LONG_MAX s (s.goto t .deqCounter)
  | deqCounter {s : State T} {t : T} (ht : s.threads t = .deqCounter) :
      Step LONG_MAX s (s.goto t (.deqHead s.counter s.commits.length))
  | deqHeadNull {s : State T} {t : T} {c n : ℕ} (ht : s.threads t = .deqHead c n)
      (hnull : s.head = none) : Step LONG_MAX s (s.goto t .idle)
  | deqHead {s : State T} {t : T} {c n currentHead : ℕ} (ht : s.threads t = .deqHead c n)
      (hhead : s.head = some currentHead) : Step LONG_MAX s (s.goto t (.deqLoad c n currentHead))
  | deqLoad {s : State T} {t : T} {c n currentHead : ℕ} (ht : s.threads t = .deqLoad c n currentHead)
      (heq : s.counter = c) :
      Step LONG_MAX s (s.goto t (.deqTail c n currentHead (s.next currentHead)))
  | deqLoadFails {s : State T} {t : T} {c n currentHead : ℕ}
      (ht : s.threads t = .deqLoad c n currentHead) (hne : s.counter ≠ c) :
      Step LONG_MAX s (s.goto t (.deqHead s.counter s.commits.length))
  | deqTail {s : State T} {t : T} {c n currentHead : ℕ} {desiredQHead : Option ℕ}
      (ht : s.threads t = .deqTail c n currentHead desiredQHead) :
      Step LONG_MAX s (s.goto t (.deqSwap c n currentHead desiredQHead
        (if desiredQHead ≠ none then s.tail else none)))
  | deqSwap {s : State T} {t : T} {c n currentHead : ℕ} {desiredQHead desiredQTail : Option ℕ}
      (ht : s.threads t = .deqSwap c n currentHead desiredQHead desiredQTail) (heq : s.counter = c) :
      Step LONG_MAX s (((s.storeDequeue currentHead desiredQHead desiredQTail).commit
        (newCounter LONG_MAX c) (.dequeue currentHead)).goto t .idle)
  | deqSwapFails {s : State T} {t : T} {c n currentHead : ℕ} {desiredQHead desiredQTail : Option ℕ}
      (ht : s.threads t = .deqSwap c n currentHead desiredQHead desiredQTail) (hne : s.counter ≠ c) :
      Step LONG_MAX s (s.goto t (.deqHead s.counter s.commits.length))

/-- While a thread is in an attempt, there are fewer commits than the counter has values. -/
def NoWrap (LONG_MAX : ℕ) (s : State T) : Prop :=
  ∀ t n, seen (s.threads t) = some n → s.commits.length < n + LONG_MAX

/-- The runs in which the counter does not wrap completely within an attempt. -/
inductive Run (LONG_MAX : ℕ) (s : State T) : State T → Prop
  | refl : Run LONG_MAX s s
  | tail {s₁ s₂ : State T} (h : Run LONG_MAX s s₁) (hstep : Step LONG_MAX s₁ s₂)
      (hnowrap : NoWrap LONG_MAX s₂) : Run LONG_MAX s s₂

/-- The elements that were put in, in the order of the commits. -/
def enqueued (commits : List Commit) : List ℕ :=
  commits.filterMap fun
    | .enqueue e => some e
    | .dequeue _ => none

def dequeued (commits : List Commit) : List ℕ :=
  commits.filterMap fun
    | .enqueue _ => none
    | .dequeue e => some e

end LockFreeQueue
end ZoweCommon
