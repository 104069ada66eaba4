import ZoweCommon.Http.ConversationClose

/-! What a conversation counts, in whatever order its tasks take their steps. -/
namespace ZoweCommon
namespace Http
namespace Conversation

/-- The word counts the subtasks, and each element for the close is in the queue at most once. -/
structure CountsTasks (s : Conversation) : Prop where
  running : s.word.runningTasks.toNat = s.running
  considers : s.queue.count .CONSIDER_CLOSE_CONVERSATION ≤ 1
  closes : s.queue.count .CLOSE_CONVERSATION + s.closes ≤ 1
  asked : s.closes ≠ 0 → s.word.shouldClose = true

theorem Counted.countsTasks {s : Conversation} (h : Counted s) : CountsTasks s where
  running := h.runs
  considers := by
    have hflag := Bool.toNat_le s.word.considerCloseEnqueued
    have hconsiders := h.considers
    rw [considering] at hconsiders
    omega
  closes := Nat.le_trans h.closes (Bool.toNat_le _)
  asked := by
    intro hcloses
    apply h.asked_of_sent
    have hsent := h.closes
    cases hclose : s.closeSent with
    | true => rfl
    | false =>
      rw [hclose, Bool.toNat_false] at hsent
      omega

theorem run_countsTasks {s : Conversation}
    (hrun : Run (fun s _ => HasRoom s) makeHttpConversation s) : CountsTasks s := by
  have hcounted : Counted s := by
    induction hrun with
    | refl => exact counted_make
    | tail hrun hstep hroom ih => exact ih.step hstep hroom
  exact hcounted.countsTasks

theorem run_countsTasks_read : ∃ s, Run (fun s _ => HasRoom s) makeHttpConversation s ∧
    s.queue = [.CLOSE_CONVERSATION] ∧ CountsTasks s := by
  obtain ⟨s, hrun, _, hqueue, _⟩ := run_read_fails (P := fun s _ => HasRoom s)
    fun hmain _ hstart => absurd hstart hmain
  exact ⟨s, hrun, hqueue, run_countsTasks hrun⟩

end Conversation
end Http
end ZoweCommon
