import Mathlib.Data.Fintype.Pigeonhole
import Mathlib.Data.Set.Finite.List
import ZoweCommon.Json.RoundTrip

/-! In the native character set, parsing undoes printing. -/
namespace ZoweCommon

open CLibrary CString JsonTokenizer JsonPrinter

/-- A string of printable characters, newlines and carriage returns, no longer than a token. -/
def NativeString (s : CString) : Prop :=
  (∀ c ∈ s.bytes, isprint c.toInt = true ∨ c = 0x0A ∨ c = 0x0D) ∧ s.bytes.length ≤ MAX_TOKEN

/-- An `int`, a string, a boolean or a null. -/
def NativeScalar : JsonScalar → Prop
  | .int64 _ => False
  | .double _ => False
  | .string s => NativeString s
  | _ => True

/-- The tokenizer undoes the escape of one character. -/
theorem decodes_escapeNative {c : Byte} (h : isprint c.toInt = true ∨ c = 0x0A ∨ c = 0x0D) :
    Decodes (escapeNative c) [c] := by
  unfold escapeNative
  by_cases hnewline : c = 0x0A
  · rw [if_pos hnewline, hnewline]
    exact .escaped 0x6E .nil
  · by_cases hreturn : c = 0x0D
    · rw [if_neg hnewline, if_pos hreturn, hreturn]
      exact .escaped 0x72 .nil
    · have hprint : isprint c.toInt = true := by
        rcases h with h | h | h
        · exact h
        · exact absurd h hnewline
        · exact absurd h hreturn
      rw [if_neg hnewline, if_neg hreturn]
      by_cases hspecial : c = 0x22 ∨ c = 0x5C
      · have hunescape : unescape c.toInt = c := by
          rcases hspecial with rfl | rfl <;> decide
        have hescaped : Decodes [0x5C, c] [unescape c.toInt] := .escaped c .nil
        rw [if_pos hspecial]
        rwa [hunescape] at hescaped
      · have hplain := not_or.mp hspecial
        rw [if_neg hspecial]
        exact .plain hprint hplain.1 hplain.2 .nil

theorem decodes_native {s : List Byte}
    (h : ∀ c ∈ s, isprint c.toInt = true ∨ c = 0x0A ∨ c = 0x0D) :
    Decodes (s.flatMap escapeNative) s := by
  induction s with
  | nil => exact .nil
  | cons c s ih =>
    have hfirst := decodes_escapeNative (h c List.mem_cons_self)
    have hrest := ih fun d hd => h d (List.mem_cons_of_mem _ hd)
    rw [List.flatMap_cons]
    exact hfirst.append hrest

theorem NativeString.rereads {s : CString} (h : NativeString s) :
    StringRereads .JSON_MODE_NATIVE_CHARSET id s := ⟨decodes_native h.1, h.2⟩

theorem NativeScalar.rereads {s : JsonScalar} (h : NativeScalar s) :
    ScalarRereads .JSON_MODE_NATIVE_CHARSET id s := by
  cases s with
  | string s => exact NativeString.rereads h
  | number n => exact trivial
  | int64 n => exact absurd h not_false
  | double d => exact absurd h not_false
  | boolean b => exact trivial
  | null => exact trivial

/-- Without 64-bit integers, nothing is lost between the text and the tree. -/
theorem rereadScalar_id {s : JsonScalar} (h : NativeScalar s) : rereadScalar id s = s := by
  cases s with
  | int64 n => exact absurd h not_false
  | string s => rfl
  | number n => rfl
  | double d => rfl
  | boolean b => rfl
  | null => rfl

/-- A tree whose text fits in the buffer is printed and parsed back, with or without pretty
printing. -/
theorem jsonParse_jsonPrint_native {t : Json} (h : t.All NativeScalar NativeString) (pretty : Bool)
    (hfits : (text .JSON_MODE_NATIVE_CHARSET pretty 0 t).length ≤ JSON_BUF_LIMIT) (fuel : ℕ)
    (hfuel : 3 * (text .JSON_MODE_NATIVE_CHARSET pretty 0 t).length + 13 ≤ fuel) :
    jsonParseUnterminatedString fuel
      ((bufferPrinter .JSON_MODE_NATIVE_CHARSET pretty).jsonPrint t).customObject.data =
        .ok (.ok t) := by
  have hrereads := h.imp (fun _ => NativeScalar.rereads) fun _ => NativeString.rereads
  have hsame : t.map (rereading id) = t := h.map_eq_self (fun _ => rereadScalar_id) fun _ _ => rfl
  rw [jsonParse_jsonPrint hrereads hfits hfuel, hsame]

/-- An object whose key needs an escape. -/
theorem jsonParse_jsonPrint_native_newline :
    jsonParseUnterminatedString 200
      ((bufferPrinter .JSON_MODE_NATIVE_CHARSET true).jsonPrint
        (.object [(ofBytes [0x6B, 0x0A], .array [.scalar (.boolean true)])])).customObject.data =
      .ok (.ok (.object [(ofBytes [0x6B, 0x0A], .array [.scalar (.boolean true)])])) := by
  have hkey : NativeString (ofBytes [0x6B, 0x0A]) := ⟨by decide, by decide⟩
  have hvalue : (Json.array [.scalar (.boolean true)]).All NativeScalar NativeString :=
    .array (by simpa using .scalar trivial)
  exact jsonParse_jsonPrint_native
    (.object (by simpa using hkey) (by simpa using hvalue)) true (by decide) 200 (by decide)

/-- The buffer is no larger than its limit, whatever is printed. -/
theorem length_printed_le (p : JsonPrinter) : p.customObject.data.length ≤ JSON_BUF_LIMIT :=
  p.customObject.len_le.trans p.customObject.size_le

/-- Some tree is not read back: there are more trees than texts that fit in the buffer. -/
theorem not_jsonParse_jsonPrint_native : ¬∀ (t : Json) (pretty : Bool),
    t.All NativeScalar NativeString → ∃ n, ∀ fuel ≥ n,
      jsonParseUnterminatedString fuel
        ((bufferPrinter .JSON_MODE_NATIVE_CHARSET pretty).jsonPrint t).customObject.data =
          .ok (.ok t) := by
  intro hidentity
  let nulls (n : ℕ) : Json := .array (List.replicate n (.scalar .null))
  let data (n : ℕ) : List Byte :=
    ((bufferPrinter .JSON_MODE_NATIVE_CHARSET false).jsonPrint (nulls n)).customObject.data
  have hall : ∀ n, (nulls n).All NativeScalar NativeString := by
    intro n
    apply Json.All.array
    intro e he
    rw [List.eq_of_mem_replicate he]
    exact .scalar trivial
  have hbytes : Finite Byte := Finite.of_injective BitVec.toFin fun _ _ => BitVec.eq_of_toFin_eq
  have hfinite : {text : List Byte | text.length ≤ JSON_BUF_LIMIT}.Finite :=
    List.finite_length_le Byte JSON_BUF_LIMIT
  have hmaps : Set.MapsTo data Set.univ {text | text.length ≤ JSON_BUF_LIMIT} :=
    fun n _ => length_printed_le _
  obtain ⟨a, -, b, -, hne, hdata⟩ := Set.infinite_univ.exists_ne_map_eq_of_mapsTo hmaps hfinite
  obtain ⟨na, ha⟩ := hidentity (nulls a) false (hall a)
  obtain ⟨nb, hb⟩ := hidentity (nulls b) false (hall b)
  have hparsed : (.ok (.ok (nulls a)) : Exec (Except CString Json)) = .ok (.ok (nulls b)) := by
    rw [← ha (max na nb) (le_max_left _ _), ← hb (max na nb) (le_max_right _ _)]
    exact congrArg (jsonParseUnterminatedString (max na nb)) hdata
  have hnulls : nulls a = nulls b := by
    simpa using hparsed
  have hlists : List.replicate a (Json.scalar .null) = List.replicate b (Json.scalar .null) := by
    simpa [nulls] using hnulls
  have hlengths := congrArg List.length hlists
  rw [List.length_replicate, List.length_replicate] at hlengths
  exact hne hlengths

end ZoweCommon
