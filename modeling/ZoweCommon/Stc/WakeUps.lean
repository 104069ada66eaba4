import ZoweCommon.Stc.MainLoop

/-! The main loop does not sleep while there is work. -/
namespace ZoweCommon
namespace Stc
namespace STCBase

/-- When the main loop is about to wait and there is work the event is set, or it will be; what was
inserted is dispatched at most once. -/
structure NoLostWakeUp (base : STCBase) : Prop where
  awake : base.main = .wait → base.workQueue ≠ [] → base.qReady = true ∨ 0 < base.posts
  once : ∀ element, base.dispatched.count element ≤ base.inserted.count element

/-- An element without a handler is not taken from the queue when others are behind it, unless the
main loop is going to be woken up again. -/
def DrainsAll (base _ : STCBase) : Prop :=
  ∀ element more, base.main = .drain → base.workQueue = element :: more →
    base.handles element = false → more = [] ∨ base.qReady = true ∨ 0 < base.posts

/-- The work that is left when the drain is over wakes the main loop up; the elements are taken from
the queue in order. -/
structure Waking (base : STCBase) : Prop where
  awake : base.main = .test ∨ base.main = .wait →
    base.workQueue = [] ∨ base.qReady = true ∨ 0 < base.posts
  order : base.inserted = base.removed ++ base.workQueue
  dispatched : base.dispatched.Sublist base.removed

theorem waking_afterReset (modules : ℕ → Option STCModule) : Waking (afterReset modules) where
  awake := fun _ => .inl rfl
  order := rfl
  dispatched := .slnil

theorem Waking.noLostWakeUp {base : STCBase} (h : Waking base) : NoLostWakeUp base where
  awake := fun hmain hqueue => (h.awake (.inr hmain)).resolve_left hqueue
  once := by
    intro element
    rw [h.order, List.count_append]
    exact Nat.le_trans (h.dispatched.count_le element) (Nat.le_add_right _ _)

/-- A step of the main task away from where it is about to wait. -/
theorem Waking.busy {base base' : STCBase} (h : Waking base)
    (hmain : base'.main ≠ .test ∧ base'.main ≠ .wait)
    (hrest : base'.inserted = base.inserted ∧ base'.removed = base.removed ∧
      base'.workQueue = base.workQueue ∧ base'.dispatched = base.dispatched) : Waking base' := by
  obtain ⟨hinserted, hremoved, hqueue, hdispatched⟩ := hrest
  constructor
  · intro hat
    rcases hat with hat | hat
    · exact absurd hat hmain.1
    · exact absurd hat hmain.2
  · rw [hinserted, hremoved, hqueue]
    exact h.order
  · rw [hdispatched, hremoved]
    exact h.dispatched

theorem Waking.taskStep {base base' : STCBase} (h : Waking base) (hstep : TaskStep base base') :
    Waking base' := by
  cases hstep with
  | insert element =>
    refine ⟨fun _ => .inr (.inr (Nat.succ_pos _)), ?_, h.dispatched⟩
    change base.inserted ++ [element] = base.removed ++ (base.workQueue ++ [element])
    rw [h.order, List.append_assoc]
  | post hposts => exact ⟨fun _ => .inr (.inl rfl), h.order, h.dispatched⟩
  | stop => exact ⟨h.awake, h.order, h.dispatched⟩
  | register index module hindex => exact ⟨h.awake, h.order, h.dispatched⟩

theorem Waking.mainStep {platform : Platform} {base base' : STCBase} (h : Waking base)
    (hstep : MainStep platform base base') (hdrains : DrainsAll base base') : Waking base' := by
  cases hstep with
  | test hmain => exact ⟨fun _ => h.awake (.inl hmain), h.order, h.dispatched⟩
  | wait status hmain =>
    refine h.busy ?_ ⟨rfl, rfl, rfl, rfl⟩
    dsimp only
    split
    · exact ⟨nofun, nofun⟩
    · exact ⟨nofun, nofun⟩
  | clear hmain => exact h.busy ⟨nofun, nofun⟩ ⟨rfl, rfl, rfl, rfl⟩
  | notCleared hmain => exact h.busy ⟨nofun, nofun⟩ ⟨rfl, rfl, rfl, rfl⟩
  | fail hmain => exact h.busy ⟨nofun, nofun⟩ ⟨rfl, rfl, rfl, rfl⟩
  | stop hmain hstop => exact h.busy ⟨nofun, nofun⟩ ⟨rfl, rfl, rfl, rfl⟩
  | selected hmain hstatus hstop => exact h.busy ⟨nofun, nofun⟩ ⟨rfl, rfl, rfl, rfl⟩
  | reset hmain => exact h.busy ⟨nofun, nofun⟩ ⟨rfl, rfl, rfl, rfl⟩
  | socketsReset hmain hreset =>
    refine h.busy ?_ ⟨rfl, rfl, rfl, rfl⟩
    dsimp only
    rw [hmain]
    exact ⟨nofun, nofun⟩
  | insert element hmain =>
    refine ⟨nofun, ?_, h.dispatched⟩
    change base.inserted ++ [element] = base.removed ++ (base.workQueue ++ [element])
    rw [h.order, List.append_assoc]
  | post hmain => exact ⟨fun _ => .inr (.inl rfl), h.order, h.dispatched⟩
  | socketsHandled hmain => exact h.busy ⟨nofun, nofun⟩ ⟨rfl, rfl, rfl, rfl⟩
  | backgroundHandled hmain => exact h.busy ⟨nofun, nofun⟩ ⟨rfl, rfl, rfl, rfl⟩
  | drained hmain hqueue => exact ⟨fun _ => .inl hqueue, h.order, h.dispatched⟩
  | @dispatch element more hmain hqueue hindex hmodule =>
    refine ⟨nofun, ?_, h.dispatched.append (.refl _)⟩
    change base.inserted = base.removed ++ [element] ++ more
    rw [h.order, hqueue, List.append_assoc]
    rfl
  | @notFound element more hmain hqueue hindex hmodule =>
    refine ⟨fun _ => hdrains element more hmain hqueue hmodule, ?_, ?_⟩
    · change base.inserted = base.removed ++ [element] ++ more
      rw [h.order, hqueue, List.append_assoc]
      rfl
    · exact h.dispatched.trans (List.sublist_append_left _ _)
  | workElementHandled hmain => exact h.busy ⟨nofun, nofun⟩ ⟨rfl, rfl, rfl, rfl⟩

theorem run_waking {platform : Platform} {modules : ℕ → Option STCModule} {base : STCBase}
    (h : Run platform DrainsAll (afterReset modules) base) : Waking base := by
  induction h with
  | refl => exact waking_afterReset modules
  | tail hrun hstep hmeets ih =>
    cases hstep with
    | task hstep => exact ih.taskStep hstep
    | main hstep => exact ih.mainStep hstep hmeets

/-- No wake-up is lost. -/
theorem no_lost_wakeUp {platform : Platform} {modules : ℕ → Option STCModule} {base : STCBase}
    (hrun : Run platform DrainsAll (afterReset modules) base) : NoLostWakeUp base :=
  (run_waking hrun).noLostWakeUp

theorem no_lost_wakeUp_insert : ∃ base, Run .zos DrainsAll (afterReset fun _ => none) base ∧
    base.main = .wait ∧ base.workQueue ≠ [] ∧ NoLostWakeUp base := by
  have hstart : Run .zos DrainsAll (afterReset fun _ => none) _ := .refl
  have htest := hstart.tail (.main (.test rfl)) nofun
  have hinsert := htest.tail (.task (.insert ⟨1, 0x00010008⟩)) nofun
  exact ⟨_, hinsert, rfl, List.cons_ne_nil _ _, no_lost_wakeUp hinsert⟩

/-- The element in front is for a module that is not there. -/
theorem not_no_lost_wakeUp : ¬∀ (platform : Platform) (modules : ℕ → Option STCModule)
    (base : STCBase), Run platform (fun _ _ => True) (afterReset modules) base →
    NoLostWakeUp base := by
  intro h
  have hstart : Run .zos (fun _ _ => True) (afterReset fun _ => none) _ := .refl
  have htest := hstart.tail (.main (.test rfl)) trivial
  have hfirst := htest.tail (.task (.insert ⟨1, 0x00030001⟩)) trivial
  have hpost := hfirst.tail (.task (.post (Nat.succ_pos _))) trivial
  have hsecond := hpost.tail (.task (.insert ⟨2, 0x00010008⟩)) trivial
  have hpost' := hsecond.tail (.task (.post (Nat.succ_pos _))) trivial
  have hwait := hpost'.tail (.main (.wait (.ready true false) rfl)) trivial
  have hselected := hwait.tail (.main (@MainStep.selected .zos _ (.ready true false) rfl nofun rfl)) trivial
  have hreset := hselected.tail (.main (.reset rfl)) trivial
  have hbackground := hreset.tail (.main (.backgroundHandled rfl)) trivial
  have hindex : PAYLOAD_CODE_TO_INDEX 0x00030001 < STC_MAX_MODULES := by decide
  have hnotFound := hbackground.tail (.main (.notFound rfl rfl hindex rfl)) trivial
  have hagain := hnotFound.tail (.main (.test rfl)) trivial
  have hawake := (h _ _ _ hagain).awake rfl (List.cons_ne_nil _ _)
  rcases hawake with hready | hposts
  · exact absurd hready nofun
  · exact absurd hposts (Nat.lt_irrefl 0)

end STCBase
end Stc
end ZoweCommon
