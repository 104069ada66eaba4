import Mathlib.Data.Finset.Card
import Mathlib.Data.Finset.Option
import Mathlib.Logic.Function.Basic
import ZoweCommon.Basic.CString

/-! How a cross-memory server counts the blocks of common storage that it hands out, with any number
of threads asking for them and giving them back. A step is one access to what the threads share: the
count, or the storage of the system. -/
namespace ZoweCommon
namespace EcsaAccounting

def CMS_MAX_ECSA_BLOCK_NUMBER : ℕ := 32
def CMS_MAX_ECSA_BLOCK_SIZE : ℕ := 65536

/-- The second call has the address stored where the caller says, and leaves what is there when it
refuses. -/
inductive AllocateCall
  | cmsAllocateECSAStorage
  | cmsAllocateECSAStorage2 (result : Option ℕ)
  deriving DecidableEq

inductive FreeCall
  | cmsFreeECSAStorage
  | cmsFreeECSAStorage2
  deriving DecidableEq

/-- What the caller has for an address when its request was refused. -/
def AllocateCall.refused : AllocateCall → Option ℕ
  | .cmsAllocateECSAStorage => none
  | .cmsAllocateECSAStorage2 result => result

/-- Where a thread is in a call: before the count is increased, before the storage is obtained, or,
with the storage released, before the count is decreased. -/
inductive ThreadState
  | idle
  | increment (call : AllocateCall) (size : BitVec 32)
  | obtain (call : AllocateCall) (size : BitVec 32)
  | decrement (call : FreeCall) (block : ℕ)
  deriving DecidableEq

/-- How a call ended. A refusal comes with the number of blocks held at that time. -/
inductive Event
  | refused (call : AllocateCall) (size : BitVec 32) (held : ℕ) (result : Option ℕ)
  | allocated (call : AllocateCall) (size : BitVec 32) (result : Option ℕ)
  | freed (call : FreeCall) (block : ℕ)

structure State (T : Type) where
  ecsaBlockCount : BitVec 32
  held : Finset ℕ
  threads : T → ThreadState
  log : List Event

/-- One step of a thread: a call that tests the count, an increment, an allocation that gives a new
block or none, a release of a block that is held, or a decrement. -/
inductive Action (T : Type)
  | allocate (t : T) (call : AllocateCall) (size : BitVec 32)
  | increment (t : T)
  | obtain (t : T) (block : Option ℕ)
  | free (t : T) (call : FreeCall) (block : ℕ)
  | decrement (t : T)

variable {T : Type} [DecidableEq T]

namespace State

def initial (T : Type) : State T := ⟨0, ∅, fun _ => .idle, []⟩

def goto (s : State T) (t : T) (at' : ThreadState) : State T :=
  { s with threads := Function.update s.threads t at' }

def record (s : State T) (event : Event) : State T := { s with log := event :: s.log }

def atomicIncrement (s : State T) (increment : BitVec 32) : State T :=
  { s with ecsaBlockCount := s.ecsaBlockCount + increment }

/-- The limit, and then the size, are tested before anything is done. -/
def Refuses (s : State T) (size : BitVec 32) : Prop :=
  (CMS_MAX_ECSA_BLOCK_NUMBER : ℤ) ≤ s.ecsaBlockCount.toInt ∨ CMS_MAX_ECSA_BLOCK_SIZE < size.toNat

instance (s : State T) (size : BitVec 32) : Decidable (s.Refuses size) :=
  inferInstanceAs (Decidable (_ ∨ _))

def step (s : State T) : Action T → Option (State T)
  | .allocate t call size =>
    match s.threads t with
    | .idle =>
      if s.Refuses size then some (s.record (.refused call size s.held.card call.refused))
      else some (s.goto t (.increment call size))
    | _ => none
  | .increment t =>
    match s.threads t with
    | .increment call size => some ((s.atomicIncrement 1).goto t (.obtain call size))
    | _ => none
  | .obtain t block =>
    match s.threads t, block with
    | .obtain call size, none => some ((s.goto t .idle).record (.allocated call size none))
    | .obtain call size, some block =>
      if block ∈ s.held then none
      else some ({ s.goto t .idle with held := insert block s.held }.record
        (.allocated call size (some block)))
    | _, _ => none
  | .free t call block =>
    match s.threads t with
    | .idle =>
      if block ∈ s.held then
        some { s.goto t (.decrement call block) with held := s.held.erase block }
      else none
    | _ => none
  | .decrement t =>
    match s.threads t with
    | .decrement call block =>
      some (((s.atomicIncrement (-1)).goto t .idle).record (.freed call block))
    | _ => none

end State

/-- A run whose steps all meet a condition. -/
inductive Run (ok : State T → Action T → Prop) : State T → Prop
  | initial : Run ok (.initial T)
  | step {s s' : State T} {a : Action T} (h : Run ok s) (hok : ok s a) (hstep : s.step a = some s') :
      Run ok s'

/-- The count of a thread's block is ahead of its storage. -/
def Ahead : ThreadState → Prop
  | .obtain _ _ => True
  | .decrement _ _ => True
  | _ => False

/-- A request finds the limit reached only while the count is the number of blocks, the count has not
reached the limit since it was tested, and there is storage. -/
def InTurn (s : State T) : Action T → Prop
  | .allocate _ _ size => size.toNat ≤ CMS_MAX_ECSA_BLOCK_SIZE →
    (CMS_MAX_ECSA_BLOCK_NUMBER : ℤ) ≤ s.ecsaBlockCount.toInt → ∀ t, ¬Ahead (s.threads t)
  | .increment _ => s.ecsaBlockCount.toInt < CMS_MAX_ECSA_BLOCK_NUMBER
  | .obtain _ block => block.isSome = true
  | .free _ _ _ => True
  | .decrement _ => True

/-- The count is ahead by the threads that are about to obtain storage or have released it. -/
def Counts (count : BitVec 32) (held : Finset ℕ) (threads : T → ThreadState) : Prop :=
  ∃ ahead : Finset T, (∀ t, t ∈ ahead ↔ Ahead (threads t)) ∧
    count.toInt = held.card + ahead.card

namespace Counts

variable {count : BitVec 32} {held : Finset ℕ} {threads : T → ThreadState} {t : T}
  {at' : ThreadState}

omit [DecidableEq T] in
theorem nonneg (h : Counts count held threads) : 0 ≤ count.toInt := by
  obtain ⟨ahead, -, hcount⟩ := h
  omega

omit [DecidableEq T] in
theorem eq_held (h : Counts count held threads) (hnone : ∀ t, ¬Ahead (threads t)) :
    count.toInt = held.card := by
  obtain ⟨ahead, hmem, hcount⟩ := h
  have hempty : ahead = ∅ :=
    Finset.eq_empty_of_forall_notMem fun t ht => hnone t ((hmem t).mp ht)
  rw [hempty, Finset.card_empty] at hcount
  omega

theorem moved (h : Counts count held threads) (hbefore : ¬Ahead (threads t)) (hafter : ¬Ahead at') :
    Counts count held (Function.update threads t at') := by
  obtain ⟨ahead, hmem, hcount⟩ := h
  refine ⟨ahead, fun t' => ?_, hcount⟩
  rw [hmem]
  by_cases ht : t' = t
  · rw [ht, Function.update_self]
    exact ⟨fun hb => absurd hb hbefore, fun ha => absurd ha hafter⟩
  · rw [Function.update_of_ne ht]

theorem enter (h : Counts count held threads) (hbefore : ¬Ahead (threads t)) (hafter : Ahead at')
    {count' : BitVec 32} {held' : Finset ℕ}
    (hcount : count'.toInt - held'.card = count.toInt - held.card + 1) :
    Counts count' held' (Function.update threads t at') := by
  obtain ⟨ahead, hmem, hold⟩ := h
  have hnot : t ∉ ahead := fun ht => hbefore ((hmem t).mp ht)
  refine ⟨insert t ahead, fun t' => ?_, ?_⟩
  · rw [Finset.mem_insert, hmem]
    by_cases ht : t' = t
    · rw [ht, Function.update_self]
      exact ⟨fun _ => hafter, fun _ => .inl rfl⟩
    · rw [Function.update_of_ne ht]
      exact ⟨fun h => h.resolve_left ht, .inr⟩
  · rw [Finset.card_insert_of_notMem hnot]
    push_cast
    omega

theorem leave (h : Counts count held threads) (hbefore : Ahead (threads t)) (hafter : ¬Ahead at')
    {count' : BitVec 32} {held' : Finset ℕ}
    (hcount : count'.toInt - held'.card = count.toInt - held.card - 1) :
    Counts count' held' (Function.update threads t at') := by
  obtain ⟨ahead, hmem, hold⟩ := h
  have ht : t ∈ ahead := (hmem t).mpr hbefore
  have hcard := Finset.card_erase_add_one ht
  refine ⟨ahead.erase t, fun t' => ?_, by omega⟩
  rw [Finset.mem_erase, hmem]
  by_cases ht : t' = t
  · rw [ht, Function.update_self]
    exact ⟨fun h => absurd rfl h.1, fun ha => absurd ha hafter⟩
  · rw [Function.update_of_ne ht]
    exact ⟨And.right, fun h => ⟨ht, h⟩⟩

omit [DecidableEq T] in
theorem ahead_pos (h : Counts count held threads) (ht : Ahead (threads t)) :
    (held.card : ℤ) < count.toInt := by
  obtain ⟨ahead, hmem, hcount⟩ := h
  have := Finset.card_pos.mpr ⟨t, (hmem t).mpr ht⟩
  omega

end Counts

theorem toInt_add_one {count : BitVec 32} (hlow : 0 ≤ count.toInt)
    (hhigh : count.toInt < CMS_MAX_ECSA_BLOCK_NUMBER) : (count + 1).toInt = count.toInt + 1 := by
  have hone : (1 : BitVec 32).toNat = 1 := rfl
  unfold CMS_MAX_ECSA_BLOCK_NUMBER at hhigh
  rw [BitVec.toInt_eq_toNat_cond] at hlow hhigh ⊢
  rw [BitVec.toInt_eq_toNat_cond, BitVec.toNat_add, hone]
  split_ifs at hlow hhigh ⊢ <;> omega

theorem toInt_sub_one {count : BitVec 32} (hlow : 0 < count.toInt) :
    (count + -1).toInt = count.toInt - 1 := by
  have hone : (-1 : BitVec 32).toNat = 2 ^ 32 - 1 := rfl
  rw [BitVec.toInt_eq_toNat_cond] at hlow ⊢
  rw [BitVec.toInt_eq_toNat_cond, BitVec.toNat_add, hone]
  split_ifs at hlow ⊢ <;> omega

/-- What steps in turn keep. -/
structure Inv (s : State T) : Prop where
  counts : Counts s.ecsaBlockCount s.held s.threads
  limited : s.ecsaBlockCount.toInt ≤ CMS_MAX_ECSA_BLOCK_NUMBER
  refused : ∀ call size held result, .refused call size held result ∈ s.log →
    size.toNat ≤ CMS_MAX_ECSA_BLOCK_SIZE → held = CMS_MAX_ECSA_BLOCK_NUMBER

omit [DecidableEq T] in
theorem inv_initial : Inv (.initial T) where
  counts := ⟨∅, fun t => ⟨fun ht => absurd ht (Finset.notMem_empty t), False.elim⟩, rfl⟩
  limited := show (0 : BitVec 32).toInt ≤ CMS_MAX_ECSA_BLOCK_NUMBER by decide
  refused call size held result h := absurd h List.not_mem_nil

variable {s s' : State T} {t : T}

theorem inv_allocate (h : Inv s) {call : AllocateCall} {size : BitVec 32}
    (hok : InTurn s (.allocate t call size)) (hstep : s.step (.allocate t call size) = some s') :
    Inv s' := by
  unfold State.step at hstep
  dsimp only at hstep
  split at hstep
  next hidle =>
    split at hstep
    next hrefuses =>
      cases hstep
      refine ⟨h.counts, h.limited, fun call' size' held result hevent hsize => ?_⟩
      obtain heq | hold := List.mem_cons.mp hevent
      · cases heq
        have hfull := hrefuses.resolve_right (Nat.not_lt.mpr hsize)
        have hexact := h.counts.eq_held (hok hsize hfull)
        have hlimited := h.limited
        omega
      · exact h.refused call' size' held result hold hsize
    next =>
      cases hstep
      have hbefore : ¬Ahead (s.threads t) := by
        rw [hidle]
        exact id
      exact ⟨h.counts.moved hbefore id, h.limited, h.refused⟩
  next => cases hstep

theorem inv_increment (h : Inv s) (hok : InTurn s (.increment t))
    (hstep : s.step (.increment t) = some s') : Inv s' := by
  unfold State.step at hstep
  dsimp only at hstep
  split at hstep
  next call size ht =>
    cases hstep
    have hbefore : ¬Ahead (s.threads t) := by
      rw [ht]
      exact id
    have hcount := toInt_add_one h.counts.nonneg hok
    have hlimit : s.ecsaBlockCount.toInt < CMS_MAX_ECSA_BLOCK_NUMBER := hok
    have hcounts : Counts (s.ecsaBlockCount + 1) s.held
        (Function.update s.threads t (.obtain call size)) :=
      h.counts.enter hbefore (show Ahead (.obtain call size) from trivial) (by omega)
    have hlimited : (s.ecsaBlockCount + 1).toInt ≤ CMS_MAX_ECSA_BLOCK_NUMBER := by omega
    exact ⟨hcounts, hlimited, h.refused⟩
  next => cases hstep

theorem inv_obtain (h : Inv s) {block : Option ℕ} (hok : InTurn s (.obtain t block))
    (hstep : s.step (.obtain t block) = some s') : Inv s' := by
  obtain ⟨block, rfl⟩ := Option.isSome_iff_exists.mp hok
  unfold State.step at hstep
  dsimp only at hstep
  split at hstep
  next hnone => cases hnone
  next call size block' ht heq =>
    cases heq
    split at hstep
    next => cases hstep
    next hnew =>
      cases hstep
      have hbefore : Ahead (s.threads t) := by
        rw [ht]
        trivial
      have hcard := Finset.card_insert_of_notMem hnew
      have hcounts : Counts s.ecsaBlockCount (insert block s.held)
          (Function.update s.threads t .idle) := h.counts.leave hbefore id (by omega)
      refine ⟨hcounts, h.limited, fun call' size' held result hevent => ?_⟩
      exact h.refused call' size' held result ((List.mem_cons.mp hevent).resolve_left nofun)
  next => cases hstep

theorem inv_free (h : Inv s) {call : FreeCall} {block : ℕ}
    (hstep : s.step (.free t call block) = some s') : Inv s' := by
  unfold State.step at hstep
  dsimp only at hstep
  split at hstep
  next hidle =>
    split at hstep
    next hheld =>
      cases hstep
      have hbefore : ¬Ahead (s.threads t) := by
        rw [hidle]
        exact id
      have hcard := Finset.card_erase_add_one hheld
      have hcounts : Counts s.ecsaBlockCount (s.held.erase block)
          (Function.update s.threads t (.decrement call block)) :=
        h.counts.enter hbefore (show Ahead (.decrement call block) from trivial) (by omega)
      exact ⟨hcounts, h.limited, h.refused⟩
    next => cases hstep
  next => cases hstep

theorem inv_counted {increment : BitVec 32} {call : FreeCall} {block : ℕ}
    (hcounts : Counts (s.ecsaBlockCount + increment) s.held (Function.update s.threads t .idle))
    (hlimited : (s.ecsaBlockCount + increment).toInt ≤ CMS_MAX_ECSA_BLOCK_NUMBER) (h : Inv s) :
    Inv (((s.atomicIncrement increment).goto t .idle).record (.freed call block)) := by
  refine ⟨hcounts, hlimited, fun call' size' held result hevent => ?_⟩
  exact h.refused call' size' held result ((List.mem_cons.mp hevent).resolve_left nofun)

theorem inv_decrement (h : Inv s) (hstep : s.step (.decrement t) = some s') : Inv s' := by
  unfold State.step at hstep
  dsimp only at hstep
  split at hstep
  next call block ht =>
    rw [← Option.some.inj hstep]
    have hbefore : Ahead (s.threads t) := by
      rw [ht]
      trivial
    have hlimited := h.limited
    have hpos := h.counts.ahead_pos hbefore
    have hcount : (s.ecsaBlockCount + -1).toInt = s.ecsaBlockCount.toInt - 1 :=
      toInt_sub_one (by omega)
    exact inv_counted (h.counts.leave hbefore id (by omega)) (by omega) h
  next => cases hstep

theorem inv_step (h : Inv s) {a : Action T} (hok : InTurn s a) (hstep : s.step a = some s') :
    Inv s' := by
  cases a with
  | allocate t call size => exact inv_allocate h hok hstep
  | increment t => exact inv_increment h hok hstep
  | obtain t block => exact inv_obtain h hok hstep
  | free t call block => exact inv_free h hstep
  | decrement t => exact inv_decrement h hstep

theorem run_inv (h : Run InTurn s) : Inv s := by
  induction h with
  | initial => exact inv_initial
  | step h hok hstep ih => exact inv_step ih hok hstep

end EcsaAccounting
end ZoweCommon
