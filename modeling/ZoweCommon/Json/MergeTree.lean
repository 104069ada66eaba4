import Mathlib.Data.List.Nodup
import ZoweCommon.Json.Merge

/-! Merging as an operation on trees, and the law that says which side each value comes from. -/
namespace ZoweCommon
namespace Json

open JsonBuilder

mutual

/-- The overrides where they say something, and the base elsewhere. -/
def mergeTree (flags : BitVec 32) (o : Json) : Json → Json
  | .scalar _ => o
  | .object bs =>
    match o with
    | .object os =>
      .object (mergeProperties flags os bs ++ os.filter fun p => !bs.any fun q => q.1 = p.1)
    | _ => o
  | .array bs =>
    match o with
    | .array os =>
      let arrayPolicy := flags &&& JSON_MERGE_FLAG_ARRAY_POLICY_MASK
      if arrayPolicy = JSON_MERGE_FLAG_CONCATENATE_ARRAYS then .array (bs ++ os)
      else if arrayPolicy = JSON_MERGE_FLAG_MERGE_IN_PLACE then .array (mergeElements flags os bs)
      else if arrayPolicy = JSON_MERGE_FLAG_TAKE_BASE then .array bs
      else .array os
    | _ => o

/-- The properties of the base, each merged with what the overrides have under its key. -/
def mergeProperties (flags : BitVec 32) (os : List (CString × Json)) :
    List (CString × Json) → List (CString × Json)
  | [] => []
  | (key, b) :: bs =>
    (key, match lookup os key with
      | some o => mergeTree flags o b
      | none => b) :: mergeProperties flags os bs

/-- Index by index, as long as the longer of the two. -/
def mergeElements (flags : BitVec 32) : List Json → List Json → List Json
  | os, [] => os
  | [], bs => bs
  | o :: os, b :: bs => mergeTree flags o b :: mergeElements flags os bs

end

def combineArrays (flags : BitVec 32) (os bs : List Json) : List Json :=
  let arrayPolicy := flags &&& JSON_MERGE_FLAG_ARRAY_POLICY_MASK
  if arrayPolicy = JSON_MERGE_FLAG_CONCATENATE_ARRAYS then bs ++ os
  else if arrayPolicy = JSON_MERGE_FLAG_MERGE_IN_PLACE then mergeElements flags os bs
  else if arrayPolicy = JSON_MERGE_FLAG_TAKE_BASE then bs
  else os

def isObject : Json → Bool
  | .object _ => true
  | _ => false

def isArray : Json → Bool
  | .array _ => true
  | _ => false

theorem isObject_iff {j : Json} : j.isObject = true ↔ ∃ ps, j = .object ps := by
  cases j <;> simp [isObject]

theorem isArray_iff {j : Json} : j.isArray = true ↔ ∃ es, j = .array es := by
  cases j <;> simp [isArray]

variable {flags : BitVec 32} {o b v : Json} {os bs : List (CString × Json)} {key : CString}
  {path : List CString}

theorem mergeTree_array (flags : BitVec 32) (os bs : List Json) :
    mergeTree flags (.array os) (.array bs) = .array (combineArrays flags os bs) := by
  simp only [mergeTree, combineArrays]
  split_ifs <;> rfl

/-- The overrides win where the kinds differ. -/
theorem mergeTree_of_not_same (hobject : ¬(o.isObject = true ∧ b.isObject = true))
    (harray : ¬(o.isArray = true ∧ b.isArray = true)) : mergeTree flags o b = o := by
  cases b with
  | scalar s => rw [mergeTree]
  | object bs =>
    cases o with
    | object os => exact absurd ⟨rfl, rfl⟩ hobject
    | scalar s => rw [mergeTree]; simp
    | array es => rw [mergeTree]; simp
  | array bs =>
    cases o with
    | array os => exact absurd ⟨rfl, rfl⟩ harray
    | scalar s => rw [mergeTree]; simp
    | object ps => rw [mergeTree]; simp

@[simp] theorem lookup_nil : lookup [] key = none := rfl

@[simp] theorem lookup_cons (k : CString) (ps : List (CString × Json)) :
    lookup ((k, v) :: ps) key = if k = key then some v else lookup ps key := by
  unfold lookup
  rw [List.find?_cons]
  by_cases h : k = key
  · simp [h]
  · simp [h]

theorem lookup_append (ps qs : List (CString × Json)) :
    lookup (ps ++ qs) key = (lookup ps key).or (lookup qs key) := by
  induction ps with
  | nil => simp
  | cons p ps ih =>
    obtain ⟨k, v⟩ := p
    rw [List.cons_append, lookup_cons, lookup_cons, ih]
    split_ifs <;> simp

theorem lookup_eq_none_iff : lookup os key = none ↔ key ∉ os.map Prod.fst := by
  induction os with
  | nil => simp
  | cons p os ih =>
    obtain ⟨k, v⟩ := p
    rw [lookup_cons, List.map_cons, List.mem_cons, not_or]
    split_ifs with h
    · simp [h]
    · rw [ih]
      exact ⟨fun hk => ⟨fun heq => h heq.symm, hk⟩, And.right⟩

theorem mem_of_lookup_eq_some (h : lookup os key = some v) : (key, v) ∈ os := by
  induction os with
  | nil => simp at h
  | cons p os ih =>
    obtain ⟨k, u⟩ := p
    rw [lookup_cons] at h
    split_ifs at h with hk
    · cases h
      rw [hk]
      exact List.mem_cons_self
    · exact List.mem_cons_of_mem _ (ih h)

theorem mergeProperties_append (flags : BitVec 32) (os bs bs' : List (CString × Json)) :
    mergeProperties flags os (bs ++ bs') =
      mergeProperties flags os bs ++ mergeProperties flags os bs' := by
  induction bs with
  | nil => rw [List.nil_append, mergeProperties, List.nil_append]
  | cons q bs ih =>
    obtain ⟨k, b⟩ := q
    rw [List.cons_append, mergeProperties, mergeProperties, ih, List.cons_append]

theorem getElem?_mergeElements (flags : BitVec 32) (os bs : List Json) (i : ℕ) :
    (mergeElements flags os bs)[i]? = match os[i]?, bs[i]? with
      | some o, some b => some (mergeTree flags o b)
      | some o, none => some o
      | none, b => b := by
  induction bs generalizing os i with
  | nil =>
    rw [mergeElements]
    cases os[i]? <;> rfl
  | cons b bs ih =>
    cases os with
    | nil => rw [mergeElements] <;> simp
    | cons o os =>
      rw [mergeElements]
      cases i with
      | zero => rfl
      | succ i => exact ih os i

theorem length_mergeElements (flags : BitVec 32) (os bs : List Json) :
    (mergeElements flags os bs).length = max bs.length os.length := by
  induction bs generalizing os with
  | nil => rw [mergeElements]; simp
  | cons b bs ih =>
    cases os with
    | nil => rw [mergeElements] <;> simp
    | cons o os =>
      rw [mergeElements, List.length_cons, ih, List.length_cons, List.length_cons]
      omega

theorem lookup_mergeProperties (flags : BitVec 32) (os bs : List (CString × Json)) (key : CString) :
    lookup (mergeProperties flags os bs) key = (lookup bs key).map fun b =>
      match lookup os key with
      | some o => mergeTree flags o b
      | none => b := by
  induction bs with
  | nil => rw [mergeProperties]; rfl
  | cons q bs ih =>
    obtain ⟨k, b⟩ := q
    rw [mergeProperties, lookup_cons, lookup_cons, ih]
    split_ifs with hk
    · rw [hk]
      rfl
    · rfl

theorem lookup_filter_keys (os bs : List (CString × Json)) (key : CString) :
    lookup (os.filter fun p => !bs.any fun q => q.1 = p.1) key =
      if lookup bs key = none then lookup os key else none := by
  induction os with
  | nil => simp
  | cons p os ih =>
    obtain ⟨k, v⟩ := p
    have hany : (bs.any fun q => q.1 = k) = true ↔ k ∈ bs.map Prod.fst := by
      simp
    by_cases hk : k ∈ bs.map Prod.fst
    · rw [List.filter_cons_of_neg (by rw [hany.mpr hk]; simp), ih, lookup_cons]
      split_ifs with hnone heq
      · rw [← heq, lookup_eq_none_iff] at hnone
        exact absurd hk hnone
      · rfl
      · rfl
    · have hpos : (fun p : CString × Json => !bs.any fun q => q.1 = p.1) (k, v) = true := by
        change (!bs.any fun q => q.1 = k) = true
        rw [Bool.not_eq_true', ← Bool.not_eq_true]
        exact fun h => hk (hany.mp h)
      have hfilter := List.filter_cons_of_pos (p := fun p : CString × Json =>
        !bs.any fun q => q.1 = p.1) (l := os) hpos
      rw [hfilter, lookup_cons, lookup_cons, ih]
      split_ifs with heq hnone
      · rfl
      · rw [← heq] at hnone
        exact absurd (lookup_eq_none_iff.mpr hk) hnone
      · rfl
      · rfl

/-- What a merged object has under a key. -/
theorem lookup_mergeTree (flags : BitVec 32) (os bs : List (CString × Json)) (key : CString) :
    lookup (mergeProperties flags os bs ++ os.filter fun p => !bs.any fun q => q.1 = p.1) key =
      match lookup os key, lookup bs key with
      | some o, some b => some (mergeTree flags o b)
      | some o, none => some o
      | none, b => b := by
  rw [lookup_append, lookup_mergeProperties, lookup_filter_keys]
  cases lookup bs key <;> cases lookup os key <;> simp

/-- A value of the overrides that is no object stands in the way of a longer path. -/
def Shadowed (o : Json) (path : List CString) : Prop :=
  ∃ front key rest v, path = front ++ key :: rest ∧ o.get front = some v ∧ v.isObject = false

theorem get_cons_object (ps : List (CString × Json)) (key : CString) (path : List CString) :
    (object ps).get (key :: path) = (lookup ps key).bind fun v => v.get path := rfl

theorem not_shadowed_nil : ¬Shadowed o [] := by
  rintro ⟨front, key, rest, v, h, -⟩
  simp at h

theorem shadowed_cons_object :
    Shadowed (.object os) (key :: path) ↔ ∃ o, lookup os key = some o ∧ Shadowed o path := by
  constructor
  · rintro ⟨front, k, rest, v, hpath, hget, hv⟩
    cases front with
    | nil =>
      rw [get, Option.some_inj] at hget
      rw [← hget] at hv
      cases hv
    | cons k' front =>
      obtain ⟨rfl, rfl⟩ := List.cons.inj hpath
      rw [get_cons_object] at hget
      obtain ⟨o, ho, hget⟩ := Option.bind_eq_some_iff.mp hget
      exact ⟨o, ho, front, k, rest, v, rfl, hget, hv⟩
  · rintro ⟨o, ho, front, k, rest, v, rfl, hget, hv⟩
    refine ⟨key :: front, k, rest, v, rfl, ?_, hv⟩
    rw [get_cons_object]
    exact Option.bind_eq_some_iff.mpr ⟨o, ho, hget⟩

theorem shadowed_cons_of_not_object (h : o.isObject = false) : Shadowed o (key :: path) :=
  ⟨[], key, path, o, rfl, rfl, h⟩

theorem get_cons_of_not_object (h : o.isObject = false) : o.get (key :: path) = none := by
  cases o with
  | object ps => cases h
  | scalar s => rfl
  | array es => rfl

theorem get_of_shadowed (h : Shadowed o path) : o.get path = none := by
  induction path generalizing o with
  | nil => exact absurd h not_shadowed_nil
  | cons key path ih =>
    cases o with
    | object os =>
      rw [get_cons_object]
      obtain ⟨v, hv, hshadow⟩ := shadowed_cons_object.mp h
      rw [hv]
      exact ih hshadow
    | scalar s => rfl
    | array es => rfl

/-- The value at a path of a merged tree: nothing below what stands in the way, the merge of
what both sides have, and otherwise the value of the side that has one. -/
theorem get_mergeTree (flags : BitVec 32) (path : List CString) : ∀ o b : Json,
    ¬Shadowed o path → (mergeTree flags o b).get path =
      match o.get path, b.get path with
      | some x, some y => some (mergeTree flags x y)
      | some x, none => some x
      | none, y => y := by
  induction path with
  | nil =>
    intro o b _
    rfl
  | cons key path ih =>
    intro o b hshadow
    cases o with
    | scalar s => exact absurd (shadowed_cons_of_not_object rfl) hshadow
    | array es => exact absurd (shadowed_cons_of_not_object rfl) hshadow
    | object os =>
      by_cases hb : b.isObject = true
      · obtain ⟨bs, rfl⟩ := isObject_iff.mp hb
        rw [mergeTree]
        simp only [get_cons_object, lookup_mergeTree]
        cases ho : lookup os key with
        | none => cases lookup bs key <;> rfl
        | some x =>
          have hx : ¬Shadowed x path := fun h => hshadow (shadowed_cons_object.mpr ⟨x, ho, h⟩)
          cases hb : lookup bs key with
          | none => simp only [Option.bind_some, Option.bind_none]; cases x.get path <;> rfl
          | some y => exact ih x y hx
      · have hsame : mergeTree flags (.object os) b = .object os :=
          mergeTree_of_not_same (fun h => hb h.2) (fun h => by cases h.1)
        rw [hsame, get_cons_of_not_object (Bool.not_eq_true _ |>.mp hb)]
        cases (object os).get (key :: path) <;> rfl

theorem get_mergeTree_of_shadowed (h : Shadowed o path) : (mergeTree flags o b).get path = none := by
  induction path generalizing o b with
  | nil => exact absurd h not_shadowed_nil
  | cons key path ih =>
    by_cases hboth : o.isObject = true ∧ b.isObject = true
    · obtain ⟨os, rfl⟩ := isObject_iff.mp hboth.1
      obtain ⟨bs, rfl⟩ := isObject_iff.mp hboth.2
      obtain ⟨x, hx, hshadow⟩ := shadowed_cons_object.mp h
      rw [mergeTree, get_cons_object, lookup_mergeTree, hx]
      cases lookup bs key with
      | none => exact get_of_shadowed hshadow
      | some y => exact ih hshadow
    · by_cases harray : o.isArray = true ∧ b.isArray = true
      · obtain ⟨os, rfl⟩ := isArray_iff.mp harray.1
        obtain ⟨bs, rfl⟩ := isArray_iff.mp harray.2
        rw [mergeTree_array]
        rfl
      · rw [mergeTree_of_not_same hboth harray]
        exact get_of_shadowed h

/-- Which side the value at each path of a merged tree comes from. -/
structure OverrideLaw (flags : BitVec 32) (o b merged : Json) : Prop where
  /-- Below a value of the overrides that is no object there is nothing. -/
  shadowed : ∀ path, Shadowed o path → merged.get path = none
  isSome_iff : ∀ path, ¬Shadowed o path →
    ((merged.get path).isSome ↔ (o.get path).isSome ∨ (b.get path).isSome)
  overrides : ∀ path x, o.get path = some x →
    (∀ y, b.get path = some y →
      ¬(x.isObject = true ∧ y.isObject = true) ∧ ¬(x.isArray = true ∧ y.isArray = true)) →
    merged.get path = some x
  objects : ∀ path os bs, o.get path = some (.object os) → b.get path = some (.object bs) →
    merged.get path = some (mergeTree flags (.object os) (.object bs))
  arrays : ∀ path os bs, o.get path = some (.array os) → b.get path = some (.array bs) →
    merged.get path = some (.array (combineArrays flags os bs))
  base : ∀ path, ¬Shadowed o path → o.get path = none → merged.get path = b.get path

theorem not_shadowed_of_get (h : o.get path = some v) : ¬Shadowed o path := by
  intro hshadow
  rw [get_of_shadowed hshadow] at h
  cases h

theorem overrideLaw_mergeTree (flags : BitVec 32) (o b : Json) :
    OverrideLaw flags o b (mergeTree flags o b) where
  shadowed path h := get_mergeTree_of_shadowed h
  isSome_iff path h := by
    rw [get_mergeTree flags path o b h]
    cases o.get path <;> cases b.get path <;> simp
  overrides path x hx hkinds := by
    rw [get_mergeTree flags path o b (not_shadowed_of_get hx), hx]
    cases hy : b.get path with
    | none => rfl
    | some y =>
      obtain ⟨hobject, harray⟩ := hkinds y hy
      show some (mergeTree flags x y) = some x
      rw [mergeTree_of_not_same hobject harray]
  objects path os bs ho hb := by
    rw [get_mergeTree flags path o b (not_shadowed_of_get ho), ho, hb]
  arrays path os bs ho hb := by
    rw [get_mergeTree flags path o b (not_shadowed_of_get ho), ho, hb, ← mergeTree_array]
  base path h hnone := by
    rw [get_mergeTree flags path o b h, hnone]

/-! Merged objects have no duplicate keys -/

theorem map_fst_mergeProperties (flags : BitVec 32) (os bs : List (CString × Json)) :
    (mergeProperties flags os bs).map Prod.fst = bs.map Prod.fst := by
  induction bs with
  | nil => rw [mergeProperties]
  | cons q bs ih =>
    obtain ⟨k, b⟩ := q
    rw [mergeProperties, List.map_cons, List.map_cons, ih]

theorem mem_mergeProperties {p : CString × Json} (h : p ∈ mergeProperties flags os bs) :
    ∃ b, (p.1, b) ∈ bs ∧ (p.2 = b ∨ ∃ o, lookup os p.1 = some o ∧ p.2 = mergeTree flags o b) := by
  induction bs with
  | nil => simp [mergeProperties] at h
  | cons q bs ih =>
    obtain ⟨k, b⟩ := q
    rw [mergeProperties] at h
    rcases List.mem_cons.mp h with rfl | h
    · refine ⟨b, List.mem_cons_self, ?_⟩
      cases ho : lookup os k with
      | none => exact .inl rfl
      | some o => exact .inr ⟨o, rfl, rfl⟩
    · obtain ⟨b', hb', hp⟩ := ih h
      exact ⟨b', List.mem_cons_of_mem _ hb', hp⟩

theorem mem_mergeElements {os bs : List Json} {e : Json} (h : e ∈ mergeElements flags os bs) :
    e ∈ os ∨ e ∈ bs ∨ ∃ o ∈ os, ∃ b ∈ bs, e = mergeTree flags o b := by
  induction bs generalizing os with
  | nil =>
    rw [mergeElements] at h
    exact .inl h
  | cons b bs ih =>
    cases os with
    | nil =>
      rw [mergeElements] at h
      · exact .inr (.inl h)
      · simp
    | cons o os =>
      rw [mergeElements] at h
      rcases List.mem_cons.mp h with rfl | h
      · exact .inr (.inr ⟨o, List.mem_cons_self, b, List.mem_cons_self, rfl⟩)
      · rcases ih h with h | h | ⟨o', ho', b', hb', rfl⟩
        · exact .inl (List.mem_cons_of_mem _ h)
        · exact .inr (.inl (List.mem_cons_of_mem _ h))
        · exact .inr (.inr ⟨o', List.mem_cons_of_mem _ ho', b', List.mem_cons_of_mem _ hb', rfl⟩)

theorem KeysNodup.mergeTree (ho : o.KeysNodup) (hb : b.KeysNodup) :
    (Json.mergeTree flags o b).KeysNodup := by
  induction b using parts_induction generalizing o with
  | scalar s =>
    rw [Json.mergeTree]
    exact ho
  | object bs ih =>
    cases hb with
    | object hbkeys hbvalues =>
      cases ho with
      | scalar s => exact .scalar s
      | array he => exact .array he
      | @object os hokeys hovalues =>
        rw [Json.mergeTree]
        refine .object ?_ fun p hp => ?_
        · rw [List.map_append, map_fst_mergeProperties]
          refine List.nodup_append.mpr ⟨hbkeys, ?_, ?_⟩
          · exact hokeys.sublist (List.filter_sublist.map _)
          · rintro k hk _ hk' rfl
            obtain ⟨p, hp, rfl⟩ := List.mem_map.mp hk'
            obtain ⟨q, hq, hqp⟩ := List.mem_map.mp hk
            have hout := (List.mem_filter.mp hp).2
            simp only [Bool.not_eq_true', List.any_eq_false, decide_eq_true_eq] at hout
            exact hout q hq hqp
        · rcases List.mem_append.mp hp with hp | hp
          · obtain ⟨b, hb, heq | ⟨x, hx, heq⟩⟩ := mem_mergeProperties hp
            · rw [heq]
              exact hbvalues _ hb
            · rw [heq]
              exact ih _ hb (hovalues _ (mem_of_lookup_eq_some hx)) (hbvalues _ hb)
          · exact hovalues p (List.mem_of_mem_filter hp)
  | array bs ih =>
    cases hb with
    | array hbs =>
      cases ho with
      | scalar s => exact .scalar s
      | object hk hv => exact .object hk hv
      | @array os hos =>
        rw [mergeTree_array]
        refine .array fun e he => ?_
        unfold combineArrays at he
        dsimp only at he
        split_ifs at he
        · rcases List.mem_append.mp he with he | he
          · exact hbs e he
          · exact hos e he
        · rcases mem_mergeElements he with he | he | ⟨x, hx, y, hy, rfl⟩
          · exact hos e he
          · exact hbs e he
          · exact ih y hy (hos x hx) (hbs y hy)
        · exact hbs e he
        · exact hos e he

end Json
end ZoweCommon
