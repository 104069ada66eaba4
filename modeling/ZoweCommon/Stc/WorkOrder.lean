import ZoweCommon.Stc.MainLoop

/-! Work elements are handled in the order in which they were enqueued. -/
namespace ZoweCommon
namespace Stc
namespace STCBase

/-- What was inserted is removed in order, and what was removed is dispatched if it has a handler. -/
structure InOrder (base : STCBase) : Prop where
  removed : base.inserted = base.removed ++ base.workQueue
  dispatched : base.dispatched = base.removed.filter base.handles

theorem InOrder.insert {base : STCBase} (h : InOrder base) (element : WorkElementPrefix) :
    InOrder (base.qInsert element) where
  removed := by
    rw [qInsert, h.removed, List.append_assoc]
  dispatched := h.dispatched

theorem InOrder.remove {base : STCBase} (h : InOrder base) {element : WorkElementPrefix}
    {more : List WorkElementPrefix} (hqueue : base.workQueue = element :: more) :
    base.inserted = (base.qRemove element more).removed ++ more := by
  rw [qRemove, h.removed, hqueue, List.append_assoc]
  rfl

theorem InOrder.mainStep {platform : Platform} {base base' : STCBase} (h : InOrder base)
    (hstep : MainStep platform base base') : InOrder base' := by
  cases hstep with
  | insert element hmain => exact ⟨(h.insert element).removed, h.dispatched⟩
  | @dispatch element more hmain hqueue hindex hmodule =>
    refine ⟨h.remove hqueue, ?_⟩
    change base.dispatched ++ [element] = (base.removed ++ [element]).filter base.handles
    rw [h.dispatched, List.filter_append, List.filter_cons_of_pos hmodule, List.filter_nil]
  | @notFound element more hmain hqueue hindex hmodule =>
    refine ⟨h.remove hqueue, ?_⟩
    change base.dispatched = (base.removed ++ [element]).filter base.handles
    rw [h.dispatched, List.filter_append, List.filter_cons_of_neg (by simp [hmodule]),
      List.filter_nil, List.append_nil]
  | _ => exact ⟨h.removed, h.dispatched⟩

/-- No module is registered, or replaced, while the main loop runs. -/
def KeepsModules (base base' : STCBase) : Prop := base'.modules = base.modules

theorem run_inOrder {platform : Platform} {modules : ℕ → Option STCModule} {base : STCBase}
    (hrun : Run platform KeepsModules (afterReset modules) base) : InOrder base := by
  induction hrun with
  | refl => exact ⟨rfl, rfl⟩
  | tail hrun hstep hkeeps ih =>
    cases hstep with
    | main hstep => exact ih.mainStep hstep
    | task hstep =>
      cases hstep with
      | insert element => exact ⟨(ih.insert element).removed, ih.dispatched⟩
      | register index module hindex =>
        refine ⟨ih.removed, ih.dispatched.trans ?_⟩
        congr 1
        funext element
        rw [handles, handles, hkeeps]
      | _ => exact ⟨ih.removed, ih.dispatched⟩

theorem run_inOrder_dispatch : ∃ base,
    Run .windows KeepsModules (afterReset fun _ => some ⟨true⟩) base ∧
      base.dispatched = [⟨1, 0x00010008⟩] ∧ InOrder base := by
  have hstart : Run .windows KeepsModules (afterReset fun _ => some ⟨true⟩) _ := .refl
  have hinsert := hstart.tail (.task (.insert ⟨1, 0x00010008⟩)) rfl
  have htest := hinsert.tail (.main (.test rfl)) rfl
  have hwait := htest.tail (.main (.wait (.ready true false) rfl)) rfl
  have hselected := hwait.tail (.main (.selected rfl (by decide) rfl)) rfl
  have hreset := hselected.tail (.main (.reset rfl)) rfl
  have hhandled := hreset.tail (.main (.backgroundHandled rfl)) rfl
  have hdispatch := hhandled.tail (.main (.dispatch rfl rfl (by decide) rfl)) rfl
  exact ⟨_, hdispatch, rfl, run_inOrder hdispatch⟩

end STCBase

end Stc
end ZoweCommon
