import ZoweCommon.Basic.CString

/-! JSON values as trees. -/
namespace ZoweCommon

/-- The values that have no parts; a `double` is kept as its bit pattern. -/
inductive JsonScalar
  | number (n : BitVec 32)
  | int64 (n : BitVec 64)
  | double (bits : BitVec 64)
  | string (s : CString)
  | boolean (b : Bool)
  | null
  deriving DecidableEq

inductive Json
  | scalar (s : JsonScalar)
  | object (properties : List (CString × Json))
  | array (elements : List Json)

namespace Json

/-- The integer of a value, as either version of the parser stores it. -/
def integer? : Json → Option ℤ
  | .scalar (.number n) => some n.toInt
  | .scalar (.int64 n) => some n.toInt
  | _ => none

/-- Induction over a tree, with one hypothesis for all the parts of a node. -/
@[elab_as_elim] theorem parts_induction {motive : Json → Prop}
    (scalar : ∀ s, motive (.scalar s))
    (object : ∀ ps, (∀ p ∈ ps, motive p.2) → motive (.object ps))
    (array : ∀ es, (∀ e ∈ es, motive e) → motive (.array es)) : ∀ j, motive j
  | .scalar s => scalar s
  | .object ps => object ps fun p _ => parts_induction scalar object array p.2
  | .array es => array es fun e _ => parts_induction scalar object array e
termination_by j => sizeOf j
decreasing_by
  · next hp =>
    have hlt := List.sizeOf_lt_of_mem hp
    cases p
    simp at hlt ⊢
    omega
  · next he =>
    have hlt := List.sizeOf_lt_of_mem he
    simp
    omega

mutual

/-- The number of objects and arrays on the longest way down. -/
def height : Json → ℕ
  | .scalar _ => 0
  | .object ps => heightProperties ps + 1
  | .array es => heightElements es + 1

def heightProperties : List (CString × Json) → ℕ
  | [] => 0
  | (_, v) :: ps => max v.height (heightProperties ps)

def heightElements : List Json → ℕ
  | [] => 0
  | v :: es => max v.height (heightElements es)

end

theorem height_lt_object {ps : List (CString × Json)} {p : CString × Json} (hp : p ∈ ps) :
    p.2.height < (object ps).height := by
  have hle : p.2.height ≤ heightProperties ps := by
    induction ps with
    | nil => simp at hp
    | cons q ps ih =>
      obtain ⟨k, v⟩ := q
      rw [heightProperties]
      rcases List.mem_cons.mp hp with rfl | hp
      · exact le_max_left _ _
      · exact (ih hp).trans (le_max_right _ _)
  rw [height]
  omega

theorem height_lt_array {es : List Json} {e : Json} (he : e ∈ es) : e.height < (array es).height := by
  have hle : e.height ≤ heightElements es := by
    induction es with
    | nil => simp at he
    | cons f es ih =>
      rw [heightElements]
      rcases List.mem_cons.mp he with rfl | he
      · exact le_max_left _ _
      · exact (ih he).trans (le_max_right _ _)
  rw [height]
  omega

/-- The value of the first property with a key. -/
def lookup (ps : List (CString × Json)) (key : CString) : Option Json :=
  (ps.find? fun p => p.1 = key).map Prod.snd

def get : Json → List CString → Option Json
  | j, [] => some j
  | .object ps, key :: path => (lookup ps key).bind fun v => v.get path
  | _, _ :: _ => none

/-- No object, at any depth, has two properties with the same key. -/
inductive KeysNodup : Json → Prop
  | scalar (s : JsonScalar) : KeysNodup (.scalar s)
  | object {ps : List (CString × Json)} (keys : (ps.map Prod.fst).Nodup)
      (values : ∀ p ∈ ps, KeysNodup p.2) : KeysNodup (.object ps)
  | array {es : List Json} (elements : ∀ e ∈ es, KeysNodup e) : KeysNodup (.array es)

/-- Every value without parts meets one condition, and every key another. -/
inductive All (S : JsonScalar → Prop) (K : CString → Prop) : Json → Prop
  | scalar {s : JsonScalar} (h : S s) : All S K (.scalar s)
  | object {ps : List (CString × Json)} (keys : ∀ p ∈ ps, K p.1) (values : ∀ p ∈ ps, All S K p.2) :
      All S K (.object ps)
  | array {es : List Json} (elements : ∀ e ∈ es, All S K e) : All S K (.array es)

/-- What to put in place of every value without parts, and of every key. -/
structure Rewriting where
  scalar : JsonScalar → JsonScalar
  key : CString → CString

mutual

def map (r : Rewriting) : Json → Json
  | .scalar s => .scalar (r.scalar s)
  | .object ps => .object (mapProperties r ps)
  | .array es => .array (mapElements r es)

def mapProperties (r : Rewriting) : List (CString × Json) → List (CString × Json)
  | [] => []
  | (key, value) :: ps => (r.key key, map r value) :: mapProperties r ps

def mapElements (r : Rewriting) : List Json → List Json
  | [] => []
  | value :: es => map r value :: mapElements r es

end

theorem mapProperties_eq_map (r : Rewriting) (ps : List (CString × Json)) :
    mapProperties r ps = ps.map fun p => (r.key p.1, map r p.2) := by
  induction ps with
  | nil => rfl
  | cons p ps ih =>
    obtain ⟨key, value⟩ := p
    rw [mapProperties, ih]
    rfl

theorem mapElements_eq_map (r : Rewriting) (es : List Json) : mapElements r es = es.map (map r) := by
  induction es with
  | nil => rfl
  | cons value es ih =>
    rw [mapElements, ih]
    rfl

theorem All.map_eq_self {S : JsonScalar → Prop} {K : CString → Prop} {r : Rewriting}
    (hS : ∀ s, S s → r.scalar s = s) (hK : ∀ s, K s → r.key s = s) {t : Json} (h : t.All S K) :
    t.map r = t := by
  induction t using Json.parts_induction with
  | scalar s =>
    cases h with
    | scalar hs => rw [map, hS s hs]
  | object ps ih =>
    cases h with
    | object hkeys hvalues =>
      have hmap : ps.map (fun p => (r.key p.1, map r p.2)) = ps.map id :=
        List.map_congr_left fun p hp => by rw [hK p.1 (hkeys p hp), ih p hp (hvalues p hp)]; rfl
      rw [map, mapProperties_eq_map, hmap, List.map_id]
  | array es ih =>
    cases h with
    | array helements =>
      have hmap : es.map (map r) = es.map id :=
        List.map_congr_left fun t ht => ih t ht (helements t ht)
      rw [map, mapElements_eq_map, hmap, List.map_id]

theorem All.imp {S S' : JsonScalar → Prop} {K K' : CString → Prop} (hS : ∀ s, S s → S' s)
    (hK : ∀ s, K s → K' s) {t : Json} (h : t.All S K) : t.All S' K' := by
  induction h with
  | scalar hs => exact .scalar (hS _ hs)
  | object hkeys _ ih => exact .object (fun p hp => hK p.1 (hkeys p hp)) ih
  | array _ ih => exact .array ih

end Json
end ZoweCommon
