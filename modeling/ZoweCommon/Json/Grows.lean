import ZoweCommon.Json.Memory
import ZoweCommon.Json.Merge

/-! What copying and merging leave as it was, whatever is in memory. -/
namespace ZoweCommon

namespace Json

/-- The test of `jsonIsObject`. -/
def IsObject (heap : List JsonNode) (json : ℕ) : Prop := ∃ ps, heap[json]? = some (.object ps)

theorem isObject_iff_of_node {heap : List JsonNode} {json : ℕ} {node : JsonNode}
    (hnode : heap[json]? = some node) : IsObject heap json ↔ ∃ ps, node = .object ps := by
  unfold IsObject
  rw [hnode]
  simp only [Option.some_inj]

end Json

namespace JsonBuilder

open Json

variable {b b' b'' : JsonBuilder} {parent : Option ℕ} {parentKey : Option CString} {p : ℕ}

/-- Values went below a parent: nothing else changed, and it takes still more of them. -/
structure Grows (b b' : JsonBuilder) (parent : Option ℕ) : Prop where
  kept : Kept b b' parent
  slot : ∀ parentKey, Slot b parent parentKey → Slot b' parent parentKey
  root : parent ≠ none → b'.root = b.root

/-- One value was made, with the parts below it. -/
structure Made (b b' : JsonBuilder) (parent : Option ℕ) (object : Prop) : Prop
    extends Grows b b' parent where
  root_eq : parent = none → b'.root = some b.heap.length
  length_lt : b.heap.length < b'.heap.length
  isObject : IsObject b'.heap b.heap.length ↔ object

theorem Grows.refl (b : JsonBuilder) (parent : Option ℕ) : Grows b b parent :=
  ⟨.refl b parent, fun _ h => h, fun _ => rfl⟩

theorem Grows.trans (h : Grows b b' parent) (h' : Grows b' b'' parent) : Grows b b'' parent where
  kept := h.kept.trans h'.kept
  slot parentKey hslot := h'.slot parentKey (h.slot parentKey hslot)
  root hparent := (h'.root hparent).trans (h.root hparent)

theorem Made.congr {object object' : Prop} (h : Made b b' parent object)
    (hobject : object ↔ object') : Made b b' parent object' :=
  ⟨h.toGrows, h.root_eq, h.length_lt, h.isObject.trans hobject⟩

/-- An object takes a value under every key. -/
theorem Slot.rekey {p : ℕ} {key : CString} (h : Slot b (some p) (some key)) (key' : CString) :
    Slot b (some p) (some key') := by
  cases h with
  | property _ h => exact .property key' h

theorem Slot.isObject_iff {p : ℕ} (h : Slot b (some p) parentKey) :
    IsObject b.heap p ↔ parentKey.isSome := by
  cases h with
  | property key h => simp [Json.isObject_iff_of_node h]
  | element h => simp [Json.isObject_iff_of_node h]

/-- The parent of a slot is one still when only newer nodes were written to. -/
theorem Slot.of_kept {q : ℕ} (hold : Slot b parent parentKey) (h : Slot b' parent parentKey)
    (hle : b.heap.length ≤ b'.heap.length) (hkept : Kept b' b'' (some q)) (hq : b.heap.length ≤ q) :
    Slot b'' parent parentKey := by
  have hsame : ∀ p, p < b.heap.length → b''.heap[p]? = b'.heap[p]? := by
    intro p hp
    apply hkept.heap p (hp.trans_le hle)
    rw [ne_eq, Option.some_inj]
    omega
  cases h with
  | root => exact .root
  | @property p ps key h =>
    cases hold with
    | property _ hp => exact .property key ((hsame p (lt_length_of_getElem? hp)).trans h)
  | @element p es h =>
    cases hold with
    | element hp => exact .element ((hsame p (lt_length_of_getElem? hp)).trans h)

theorem Placed.grows {json : ℕ} (h : Placed b b' json parent parentKey) (hkept : Kept b b' parent) :
    Grows b b' parent := by
  refine ⟨hkept, fun key hslot => ?_, fun hparent => ?_⟩
  · cases hslot with
    | root => exact .root
    | @property p ps key hp =>
      cases h with
      | property _ _ h' => exact .property _ h'
      | element _ hq _ =>
        rw [hp] at hq
        cases hq
    | @element p es hp =>
      cases h with
      | property _ hq _ =>
        rw [hp] at hq
        cases hq
      | element _ _ h' => exact .element h'
  · cases h with
    | root _ => exact absurd rfl hparent
    | property hroot _ _ => exact hroot
    | element hroot _ _ => exact hroot

theorem Slot.build_made (h : Slot b parent parentKey) (node : JsonNode) :
    ∃ b', b.build parent parentKey node = .ok (some b.heap.length, 0, b') ∧
      Made b b' parent (∃ ps, node = .object ps) ∧ b'.heap[b.heap.length]? = some node := by
  obtain ⟨b', hrun, hplaced, hkept, hnode, hlength⟩ := h.build node
  refine ⟨b', hrun, ⟨hplaced.grows hkept, fun hparent => ?_, ?_, Json.isObject_iff_of_node hnode⟩, hnode⟩
  · subst hparent
    cases hplaced with
    | root hroot => exact hroot
  · omega

/-- What goes below a value that was just made goes with it. -/
theorem Made.below {object : Prop} {key : Option CString} (h : Made b b' parent object)
    (hslot : Slot b' (some b.heap.length) key) (h' : Grows b' b'' (some b.heap.length)) :
    Made b b'' parent object := by
  have hroot : b''.root = b'.root := h'.root (Option.some_ne_none _)
  have hle := h.kept.length_le
  refine ⟨⟨⟨hle.trans h'.kept.length_le, fun i hi hne => ?_⟩, fun k hk => ?_, fun hparent => ?_⟩,
    fun hparent => ?_, h.length_lt.trans_le h'.kept.length_le, ?_⟩
  · have hi' : some b.heap.length ≠ some i := by
      rw [ne_eq, Option.some_inj]
      omega
    rw [h'.kept.heap i (hi.trans_le hle) hi', h.kept.heap i hi hne]
  · exact hk.of_kept (h.slot k hk) hle h'.kept le_rfl
  · rw [hroot, h.root hparent]
  · rw [hroot, h.root_eq hparent]
  · rw [(h'.slot key hslot).isObject_iff, ← hslot.isObject_iff, h.isObject]

/-- A loop that puts values below a parent. -/
theorem Slot.foldlM_grows {α : Type} {f : JsonBuilder → α → Exec JsonBuilder}
    (hstep : ∀ b x b', Slot b parent parentKey → f b x = .ok b' → Grows b b' parent) :
    ∀ (xs : List α) {b b' : JsonBuilder}, Slot b parent parentKey → xs.foldlM f b = .ok b' →
      Grows b b' parent := by
  intro xs
  induction xs with
  | nil =>
    intro b b' _ hrun
    cases hrun
    exact .refl b parent
  | cons x xs ih =>
    intro b b' hslot hrun
    rw [List.foldlM_cons, Exec.bind_eq_ok] at hrun
    obtain ⟨b₁, hx, hxs⟩ := hrun
    have hgrows := hstep b x b₁ hslot hx
    exact hgrows.trans (ih (hgrows.slot _ hslot) hxs)

theorem Slot.whileSuccess_grows {α : Type} {body : JsonBuilder → α → Exec (ℕ × JsonBuilder)}
    (hstep : ∀ b x status b', Slot b parent parentKey → body b x = .ok (status, b') →
      status = 0 ∧ Grows b b' parent) :
    ∀ (xs : List α) {b b' : JsonBuilder} {status : ℕ}, Slot b parent parentKey →
      whileSuccess body b xs = .ok (status, b') → status = 0 ∧ Grows b b' parent := by
  intro xs
  induction xs with
  | nil =>
    intro b b' status _ hrun
    cases hrun
    exact ⟨rfl, .refl b parent⟩
  | cons x xs ih =>
    intro b b' status hslot hrun
    rw [whileSuccess, Exec.bind_eq_ok] at hrun
    obtain ⟨⟨status₁, b₁⟩, hx, hxs⟩ := hrun
    obtain ⟨hstatus, hgrows⟩ := hstep b x status₁ b₁ hslot hx
    dsimp only at hxs
    rw [if_pos hstatus] at hxs
    obtain ⟨hzero, hgrows'⟩ := ih (hgrows.slot _ hslot) hxs
    exact ⟨hzero, hgrows.trans hgrows'⟩

theorem node_eq_ok {json : ℕ} {n : JsonNode} (h : b.node json = .ok n) :
    b.heap[json]? = some n := by
  unfold node at h
  split at h
  next n' hn =>
    cases h
    exact hn
  next => cases h

theorem Slot.scalar_made (h : Slot b parent parentKey) {s : JsonScalar} {json : ℕ}
    (hnode : b.heap[json]? = some (.scalar s))
    (hrun : (do
      let (_, _, b) ← b.build parent parentKey (.scalar s)
      return b) = .ok b') : Made b b' parent (IsObject b.heap json) := by
  obtain ⟨b₁, hbuild, hmade, -⟩ := h.build_made (.scalar s)
  rw [hbuild] at hrun
  cases hrun
  exact hmade.congr (Json.isObject_iff_of_node hnode).symm

theorem Slot.copyJson_made {fuel json : ℕ} (h : Slot b parent parentKey)
    (hrun : copyJson fuel b parent parentKey json = .ok b') :
    Made b b' parent (IsObject b.heap json) := by
  induction fuel generalizing b b' parent parentKey json with
  | zero => cases hrun
  | succ fuel ih =>
    rw [copyJson, Exec.bind_eq_ok] at hrun
    obtain ⟨n, hn, hrun⟩ := hrun
    have hnode := node_eq_ok hn
    cases n with
    | object ps =>
      obtain ⟨b₁, hbuild, hmade, hnew⟩ := h.build_made (.object [])
      dsimp only at hrun
      rw [JsonBuilder.jsonBuildObject, hbuild, Exec.ok_bind] at hrun
      have hslot : Slot b₁ (some b.heap.length) (some (CString.ofBytes [])) := .property _ hnew
      have hgrows := Slot.foldlM_grows
        (fun b x b' hs hx => (ih (hs.rekey x.1) hx).toGrows) ps hslot hrun
      apply (hmade.below hslot hgrows).congr
      rw [Json.isObject_iff_of_node hnode]
      exact ⟨fun _ => ⟨ps, rfl⟩, fun _ => ⟨[], rfl⟩⟩
    | array es =>
      obtain ⟨b₁, hbuild, hmade, hnew⟩ := h.build_made (.array [])
      dsimp only at hrun
      rw [JsonBuilder.jsonBuildArray, hbuild, Exec.ok_bind] at hrun
      have hslot : Slot b₁ (some b.heap.length) none := .element hnew
      have hgrows := Slot.foldlM_grows (fun b x b' hs hx => (ih hs hx).toGrows) es hslot hrun
      apply (hmade.below hslot hgrows).congr
      rw [Json.isObject_iff_of_node hnode]
      simp
    | scalar s =>
      cases s with
      | string text =>
        have hbytes : CString.ofBytes text.bytes = text := CString.ofBytes_bytes text
        dsimp only at hrun
        rw [JsonBuilder.jsonBuildString, hbytes] at hrun
        exact h.scalar_made hnode hrun
      | _ => exact h.scalar_made hnode hrun

/-- A value that was copied, and that no error is reported for. -/
theorem Slot.copyJson_ok {fuel json status : ℕ} (h : Slot b parent parentKey)
    (hrun : (do
      let b ← copyJson fuel b parent parentKey json
      return (JSON_MERGE_STATUS_SUCCESS, b)) = .ok (status, b')) :
    status = 0 ∧ Made b b' parent (IsObject b.heap json) := by
  rw [Exec.bind_eq_ok] at hrun
  obtain ⟨b₁, hcopy, hrun⟩ := hrun
  cases hrun
  exact ⟨rfl, h.copyJson_made hcopy⟩

/-- The loops over two arrays that go to a new one. -/
theorem Slot.copies_grow {fuel : ℕ} (h : Slot b (some p) none) (es : List ℕ)
    (hrun : es.foldlM (fun b item => copyJson fuel b (some p) none item) b = .ok b') :
    Grows b b' (some p) :=
  Slot.foldlM_grows (fun _ _ _ hs hx => (hs.copyJson_made hx).toGrows) es h hrun

/-- Merging never fails, and the overrides say whether an object comes of it. -/
theorem Slot.mergeJson1_made {flags : BitVec 32} {fuel overrides base status : ℕ}
    (h : Slot b parent parentKey)
    (hrun : mergeJson1 flags fuel b parent parentKey overrides base = .ok (status, b')) :
    status = 0 ∧ Made b b' parent (IsObject b.heap overrides) := by
  induction fuel generalizing b b' parent parentKey overrides base status with
  | zero => cases hrun
  | succ fuel ih =>
    rw [mergeJson1, Exec.bind_eq_ok] at hrun
    obtain ⟨nb, hnb, hrun⟩ := hrun
    cases nb with
    | scalar s => exact h.copyJson_ok hrun
    | object baseObject =>
      dsimp only at hrun
      rw [Exec.bind_eq_ok] at hrun
      obtain ⟨no, hno, hrun⟩ := hrun
      cases no with
      | scalar s => exact h.copyJson_ok hrun
      | array es => exact h.copyJson_ok hrun
      | object overridesObject =>
        obtain ⟨b₁, hbuild, hmade, hnew⟩ := h.build_made (.object [])
        dsimp only at hrun
        rw [JsonBuilder.jsonBuildObject, hbuild, Exec.ok_bind, Exec.bind_eq_ok] at hrun
        obtain ⟨⟨status₂, b₂⟩, hloop, hrun⟩ := hrun
        have hslot : Slot b₁ (some b.heap.length) (some (CString.ofBytes [])) := .property _ hnew
        have hgrows : status₂ = 0 ∧ Grows b₁ b₂ (some b.heap.length) := by
          refine Slot.whileSuccess_grows (fun b x st b' hs hx => ?_) baseObject hslot hloop
          dsimp only at hx
          cases hget : jsonObjectGetPropertyValue overridesObject x.1 with
          | none =>
            rw [hget] at hx
            have hcopied := (hs.rekey x.1).copyJson_ok hx
            exact ⟨hcopied.1, hcopied.2.toGrows⟩
          | some overrideValue =>
            rw [hget] at hx
            have hmerged := ih (hs.rekey x.1) hx
            exact ⟨hmerged.1, hmerged.2.toGrows⟩
        obtain ⟨hstatus, hgrows⟩ := hgrows
        dsimp only at hrun
        rw [if_neg (not_not_intro hstatus), Exec.bind_eq_ok] at hrun
        obtain ⟨_, hrest, hrun⟩ := hrun
        cases hrun
        have hslot₂ := hgrows.slot _ hslot
        have hgrows₃ : Grows b₂ b' (some b.heap.length) := by
          refine Slot.foldlM_grows (fun b x b' hs hx => ?_) overridesObject hslot₂ hrest
          split_ifs at hx
          · cases hx
            exact .refl _ _
          · exact ((hs.rekey x.1).copyJson_made hx).toGrows
        refine ⟨hstatus, (hmade.below hslot (hgrows.trans hgrows₃)).congr ?_⟩
        rw [Json.isObject_iff_of_node (node_eq_ok hno)]
        exact ⟨fun _ => ⟨overridesObject, rfl⟩, fun _ => ⟨[], rfl⟩⟩
    | array baseArray =>
      dsimp only at hrun
      rw [Exec.bind_eq_ok] at hrun
      obtain ⟨no, hno, hrun⟩ := hrun
      cases no with
      | scalar s => exact h.copyJson_ok hrun
      | object ps => exact h.copyJson_ok hrun
      | array overridesArray =>
        obtain ⟨b₁, hbuild, hmade, hnew⟩ := h.build_made (.array [])
        dsimp only at hrun
        rw [JsonBuilder.jsonBuildArray, hbuild, Exec.ok_bind] at hrun
        have hslot : Slot b₁ (some b.heap.length) none := .element hnew
        suffices hgrows : status = 0 ∧ Grows b₁ b' (some b.heap.length) by
          refine ⟨hgrows.1, (hmade.below hslot hgrows.2).congr ?_⟩
          rw [Json.isObject_iff_of_node (node_eq_ok hno)]
          simp
        dsimp only at hrun
        split_ifs at hrun
        · rw [Exec.bind_eq_ok] at hrun
          obtain ⟨b₂, hbase, hrun⟩ := hrun
          rw [Exec.bind_eq_ok] at hrun
          obtain ⟨b₃, hover, hrun⟩ := hrun
          cases hrun
          have hgrows := hslot.copies_grow baseArray hbase
          exact ⟨rfl, hgrows.trans ((hgrows.slot _ hslot).copies_grow overridesArray hover)⟩
        · rw [Exec.bind_eq_ok] at hrun
          obtain ⟨b₂, hloop, hrun⟩ := hrun
          cases hrun
          refine ⟨rfl, Slot.foldlM_grows (fun b i b' hs hx => ?_) _ hslot hloop⟩
          cases hO : overridesArray[i]? with
          | none =>
            cases hB : baseArray[i]? with
            | none =>
              rw [hO, hB] at hx
              cases hx
              exact .refl b _
            | some valueB =>
              rw [hO, hB] at hx
              exact (hs.copyJson_made hx).toGrows
          | some valueO =>
            cases hB : baseArray[i]? with
            | none =>
              rw [hO, hB] at hx
              exact (hs.copyJson_made hx).toGrows
            | some valueB =>
              rw [hO, hB] at hx
              dsimp only at hx
              rw [Exec.bind_eq_ok] at hx
              obtain ⟨⟨status₃, b₃⟩, hmerge, hx⟩ := hx
              cases hx
              exact (ih hs hmerge).2.toGrows
        · rw [Exec.bind_eq_ok] at hrun
          obtain ⟨b₂, hbase, hrun⟩ := hrun
          cases hrun
          exact ⟨rfl, hslot.copies_grow baseArray hbase⟩
        · rw [Exec.bind_eq_ok] at hrun
          obtain ⟨b₂, hover, hrun⟩ := hrun
          cases hrun
          exact ⟨rfl, hslot.copies_grow overridesArray hover⟩

/-- What is built as a root goes behind all that was in memory. -/
theorem Kept.isPrefix (h : Kept b b' none) : b.heap <+: b'.heap := by
  rw [List.prefix_iff_getElem?]
  intro i hi
  rw [h.heap i hi (Option.some_ne_none i).symm, List.getElem?_eq_getElem hi]

end JsonBuilder

open Json JsonBuilder

theorem jsonMerge_new {flags : BitVec 32} {fuel overrides base status : ℕ} {merged : Option ℕ}
    {heap heap' : List JsonNode}
    (hrun : jsonMerge flags fuel heap overrides base = .ok (merged, status, heap')) :
    status = 0 ∧ merged = some heap.length ∧ heap <+: heap' ∧ heap.length < heap'.length ∧
      (IsObject heap' heap.length ↔ IsObject heap overrides) := by
  rw [jsonMerge, Exec.bind_eq_ok] at hrun
  obtain ⟨⟨status₁, builder⟩, hmerge, hrun⟩ := hrun
  obtain ⟨hstatus, hmade⟩ := Slot.mergeJson1_made .root hmerge
  cases hrun
  refine ⟨hstatus, ?_, hmade.kept.isPrefix, hmade.length_lt, hmade.isObject⟩
  rw [if_neg (not_not_intro hstatus)]
  exact hmade.root_eq rfl

end ZoweCommon
