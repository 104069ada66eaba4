import Mathlib.Data.List.DropRight
import Mathlib.Data.Nat.Find
import Mathlib.Logic.Function.Basic
import ZoweCommon.Encodings.Base64Decoding

/-! Base 64 for URLs, in the buffer the text is in. -/
namespace ZoweCommon
namespace Encodings

def toBase64url (cs : Charset) (c : Byte) : Byte :=
  if c = cs.char '+' then cs.char '-' else if c = cs.char '/' then cs.char '_' else c

/-- What becomes of the characters before the terminator, and how many are left of them. -/
def base64ToBase64url (cs : Charset) (s : List Byte) : List Byte × ℤ :=
  let kept := (s.map (toBase64url cs)).rdropWhile (· = cs.char '=')
  (kept ++ List.replicate (s.length - kept.length) 0, kept.length)

def storeAt (s : Buffer) (index : ℤ) (byte : Byte) : Traced Buffer := do
  writeAt index byte
  return Function.update s index byte

/-- The characters up to the terminator, of which there are so many at most before the buffer ends.
The one where the loop ends is always read. -/
def replaceBase64url (cs : Charset) : ℕ → ℤ → Buffer → Traced (ℤ × Buffer)
  | 0, i, s => do
    let _ ← readAt s i
    return (i, s)
  | n + 1, i, s => do
    let c ← readAt s i
    if c = 0 then return (i, s)
    else if c = cs.char '-' then replaceBase64url cs n (i + 1) (← storeAt s i (cs.char '+'))
    else if c = cs.char '_' then replaceBase64url cs n (i + 1) (← storeAt s i (cs.char '/'))
    else replaceBase64url cs n (i + 1) s

def terminateBase64 (rc i : ℤ) (s : Buffer) : Traced (ℤ × Buffer) := do
  return (rc, ← storeAt s i 0)

/-- `case 3`, to which `case 2` falls through. -/
def padOne (cs : Charset) (bufSize rc i : ℤ) (s : Buffer) : Traced (ℤ × Buffer) := do
  if bufSize - 1 ≤ i then return (-1, s)
  else terminateBase64 (rc + 1) (i + 1) (← storeAt s i (cs.char '='))

def padTwo (cs : Charset) (bufSize i : ℤ) (s : Buffer) : Traced (ℤ × Buffer) := do
  if bufSize - 2 ≤ i then return (-2, s)
  else padOne cs bufSize 1 (i + 1) (← storeAt s i (cs.char '='))

def padBase64 (cs : Charset) (bufSize i : ℤ) (s : Buffer) : Traced (ℤ × Buffer) :=
  if i % 4 = 2 then padTwo cs bufSize i s
  else if i % 4 = 3 then padOne cs bufSize 0 i s
  else if i % 4 = 0 then terminateBase64 0 i s
  else return (-3, s)

def base64urlToBase64 (cs : Charset) (s : Buffer) (bufSize : ℤ) : Traced (ℤ × Buffer) := do
  let (i, s) ← replaceBase64url cs bufSize.toNat 0 s
  padBase64 cs bufSize i s

/-! The loop -/

def fromBase64url (cs : Charset) (c : Byte) : Byte :=
  if c = cs.char '-' then cs.char '+' else if c = cs.char '_' then cs.char '/' else c

theorem fromBase64url_ne_zero {cs : Charset} {c : Byte} (h : c ≠ 0) : fromBase64url cs c ≠ 0 := by
  unfold fromBase64url
  split_ifs
  · cases cs <;> decide
  · cases cs <;> decide
  · exact h

theorem holds_congr {s s' : Buffer} {i : ℤ} {text : List Byte} (h : Holds s i text)
    (heq : ∀ j, i ≤ j → j < i + text.length → s' j = s j) : Holds s' i text := by
  induction text generalizing i with
  | nil => trivial
  | cons c text ih =>
    rw [List.length_cons] at heq
    exact ⟨(heq i (by omega) (by omega)).trans h.1,
      ih h.2 fun j hj hj' => heq j (by omega) (by omega)⟩

/-- What the loop has done when it ends: at the terminator, or at the end of the buffer. -/
structure Replaced (cs : Charset) (i : ℤ) (text : List Byte) (s : Buffer)
    (run : Traced (ℤ × Buffer)) (s' : Buffer) : Prop where
  result : run.result = .ok (i + text.length, s')
  holds : Holds s' i (text.map (fromBase64url cs))
  same : ∀ j, j < i ∨ i + text.length ≤ j → s' j = s j
  within : ∀ e ∈ run.events, e.Within i (i + text.length + 1) i (i + text.length)
  last : .read (i + text.length) ∈ run.events

theorem replaceBase64url_succ (cs : Charset) (n : ℕ) {i : ℤ} {s : Buffer} {c : Byte} (hc : s i = c)
    (hne : c ≠ 0) : ∃ events,
      (∀ e ∈ events, e = .read i ∨ e = .write i (fromBase64url cs c)) ∧
      replaceBase64url cs (n + 1) i s =
        let rest := replaceBase64url cs n (i + 1) (Function.update s i (fromBase64url cs c))
        ⟨events ++ rest.events, rest.result⟩ := by
  have hread : readAt s i = ⟨[.read i], .ok c⟩ := by rw [← hc]; rfl
  have hplain (h : fromBase64url cs c = c) : Function.update s i (fromBase64url cs c) = s := by
    rw [h, ← hc, Function.update_eq_self]
  rw [replaceBase64url, hread]
  by_cases hminus : c = cs.char '-'
  · have hfrom : fromBase64url cs c = cs.char '+' := if_pos hminus
    refine ⟨[.read i, .write i (cs.char '+')], ?_, ?_⟩
    · rw [hfrom]
      simp
    · rw [hfrom, Recorded.bind_of_ok _ rfl, if_neg hne, if_pos hminus]
      rfl
  by_cases hunderscore : c = cs.char '_'
  · have hfrom : fromBase64url cs c = cs.char '/' := by
      rw [fromBase64url, if_neg hminus, if_pos hunderscore]
    refine ⟨[.read i, .write i (cs.char '/')], ?_, ?_⟩
    · rw [hfrom]
      simp
    · rw [hfrom, Recorded.bind_of_ok _ rfl, if_neg hne, if_neg hminus, if_pos hunderscore]
      rfl
  · have hfrom : fromBase64url cs c = c := by
      rw [fromBase64url, if_neg hminus, if_neg hunderscore]
    refine ⟨[.read i], by simp, ?_⟩
    rw [hplain hfrom, Recorded.bind_of_ok _ rfl, if_neg hne, if_neg hminus, if_neg hunderscore]

theorem replaced_replaceBase64url (cs : Charset) (n : ℕ) {i : ℤ} {text : List Byte} {s : Buffer}
    (hlength : text.length ≤ n) (hnul : NoNul text) (hholds : Holds s i text)
    (hend : s (i + text.length) = 0 ∨ n = text.length) :
    ∃ s', Replaced cs i text s (replaceBase64url cs n i s) s' := by
  induction text generalizing n i s with
  | nil =>
    have hstop : replaceBase64url cs n i s = ⟨[.read i], .ok (i, s)⟩ := by
      cases n with
      | zero => rfl
      | succ n =>
        have hzero : s i = 0 := by
          rcases hend with hend | hend
          · rw [List.length_nil] at hend
            rw [← hend]
            congr 1
            omega
          · cases hend
        have hread : readAt s i = ⟨[.read i], .ok 0⟩ := by rw [← hzero]; rfl
        rw [replaceBase64url, hread, Recorded.bind_of_ok _ rfl, if_pos rfl]
        rfl
    have hindex : i + (([] : List Byte).length : ℕ) = i := Int.add_zero i
    refine ⟨s, ?_, trivial, fun j _ => rfl, ?_, ?_⟩
    · rw [hstop, hindex]
    · rw [hstop, hindex]
      intro e he
      rw [List.mem_singleton.mp he]
      constructor <;> omega
    · rw [hstop, hindex]
      exact List.mem_singleton_self _
  | cons c text ih =>
    obtain ⟨hc, hholds⟩ := hholds
    have hne : c ≠ 0 := hnul c List.mem_cons_self
    have hindex : i + 1 + (text.length : ℤ) = i + ((c :: text).length : ℕ) := by
      rw [List.length_cons]
      omega
    obtain ⟨n, rfl⟩ : ∃ m, n = m + 1 := Nat.exists_eq_succ_of_ne_zero (by
      rintro rfl
      exact absurd hlength (Nat.not_succ_le_zero _))
    have hother {j : ℤ} (hj : i < j) (x : Byte) : Function.update s i x j = s j :=
      Function.update_of_ne (by omega) _ _
    have hrest : Holds (Function.update s i (fromBase64url cs c)) (i + 1) text :=
      holds_congr hholds fun j hj _ => hother (by omega) _
    obtain ⟨events, hevents, hrun⟩ := replaceBase64url_succ cs n hc hne
    obtain ⟨s', hs'⟩ := ih n (Nat.le_of_succ_le_succ hlength)
      (fun b hb => hnul b (List.mem_cons_of_mem _ hb)) hrest (by
        rcases hend with hend | hend
        · left
          rw [hother (by omega), hindex]
          exact hend
        · exact .inr (Nat.succ.inj hend))
    have hfirst : s' i = fromBase64url cs c := by
      rw [hs'.same i (.inl (by omega)), Function.update_self]
    refine ⟨s', ?_, ⟨hfirst, hs'.holds⟩, fun j hj => ?_, ?_, ?_⟩
    · rw [hrun, ← hindex]
      exact hs'.result
    · rw [hs'.same j (by omega), Function.update_of_ne (by omega)]
    · rw [hrun, ← hindex]
      intro e he
      rcases List.mem_append.mp he with he | he
      · rcases hevents e he with rfl | rfl <;> constructor <;> omega
      · exact (hs'.within e he).mono (by omega) (by omega) (by omega) (by omega)
    · rw [hrun, ← hindex]
      exact List.mem_append_right _ hs'.last

/-! The padding -/

def stored (s : Buffer) : ℤ → List Byte → Buffer
  | _, [] => s
  | i, b :: text => stored (Function.update s i b) (i + 1) text

theorem stored_of_lt {s : Buffer} {i j : ℤ} (h : j < i) (text : List Byte) :
    stored s i text j = s j := by
  induction text generalizing s i with
  | nil => rfl
  | cons b text ih => rw [stored, ih (by omega), Function.update_of_ne (by omega)]

theorem holds_stored (s : Buffer) (i : ℤ) (text : List Byte) : Holds (stored s i text) i text := by
  induction text generalizing s i with
  | nil => trivial
  | cons b text ih =>
    refine ⟨?_, ih _ _⟩
    rw [stored, stored_of_lt (by omega), Function.update_self]

/-- How much padding makes groups of four. -/
def paddingLength (i : ℕ) : ℕ := (4 - i % 4) % 4

theorem padOne_of_room (cs : Charset) {bufSize i : ℤ} (h : i + 1 < bufSize) (rc : ℤ) (s : Buffer) :
    padOne cs bufSize rc i s =
      ⟨writes i [cs.char '=', 0], .ok (rc + 1, stored s i [cs.char '=', 0])⟩ := by
  rw [padOne, if_neg (by omega)]
  rfl

theorem padBase64_of_room (cs : Charset) {bufSize : ℤ} {i : ℕ} (hi : i % 4 ≠ 1)
    (hroom : i + paddingLength i < bufSize) (s : Buffer) :
    padBase64 cs bufSize i s =
      let tail := List.replicate (paddingLength i) (cs.char '=') ++ [0]
      ⟨writes i tail, .ok ((paddingLength i : ℤ), stored s i tail)⟩ := by
  have hcases : i % 4 = 0 ∨ i % 4 = 2 ∨ i % 4 = 3 := by omega
  unfold padBase64
  rcases hcases with hmod | hmod | hmod
  · have hlength : paddingLength i = 0 := by rw [paddingLength, hmod]
    rw [if_neg (by omega), if_neg (by omega), if_pos (by omega), hlength]
    rfl
  · have hlength : paddingLength i = 2 := by rw [paddingLength, hmod]
    rw [hlength] at hroom
    have hstore : (storeAt s i (cs.char '=')).result =
        .ok (Function.update s (i : ℤ) (cs.char '=')) := rfl
    rw [if_pos (by omega), hlength, padTwo, if_neg (by omega), Recorded.bind_of_ok _ hstore,
      padOne_of_room cs (by omega)]
    rfl
  · have hlength : paddingLength i = 1 := by rw [paddingLength, hmod]
    rw [hlength] at hroom
    rw [if_neg (by omega), if_pos (by omega), hlength, padOne_of_room cs (by omega)]
    rfl

/-- Without it there is an error, and nothing is stored. -/
theorem padBase64_of_no_room (cs : Charset) {bufSize : ℤ} {i : ℕ}
    (h : i % 4 = 1 ∨ i % 4 ≠ 0 ∧ bufSize ≤ i + paddingLength i) (s : Buffer) :
    ∃ rc < 0, padBase64 cs bufSize i s = ⟨[], .ok (rc, s)⟩ := by
  have hcases : i % 4 = 1 ∨ i % 4 = 2 ∨ i % 4 = 3 := by omega
  unfold padBase64
  rcases hcases with hmod | hmod | hmod
  · rw [if_neg (by omega), if_neg (by omega), if_neg (by omega)]
    exact ⟨-3, by decide, rfl⟩
  · have hlength : paddingLength i = 2 := by rw [paddingLength, hmod]
    rw [if_pos (by omega), padTwo, if_pos (by omega)]
    exact ⟨-2, by decide, rfl⟩
  · have hlength : paddingLength i = 1 := by rw [paddingLength, hmod]
    rw [if_neg (by omega), if_pos (by omega), padOne, if_pos (by omega)]
    exact ⟨-1, by decide, rfl⟩

/-! Bounds -/

/-- Only the buffer is read and written, and success leaves groups of four in it. -/
structure StaysInBuffer (run : Traced (ℤ × Buffer)) (bufSize : ℤ) : Prop where
  within : ∀ e ∈ run.events, e.Within 0 bufSize 0 bufSize
  terminated : ∀ rc s', run.result = .ok (rc, s') → 0 ≤ rc → ∃ n : ℕ, (n : ℤ) < bufSize ∧ 4 ∣ n ∧
    s' n = 0 ∧ ∀ i : ℕ, i < n → s' i ≠ 0

theorem holds_iff {s : Buffer} {text : List Byte} :
    ∀ {i : ℤ}, Holds s i text ↔ ∀ k (h : k < text.length), s (i + k) = text[k] := by
  induction text with
  | nil => simp [Holds]
  | cons c text ih =>
    intro i
    rw [Holds, ih]
    constructor
    · rintro ⟨hc, htext⟩ k hk
      cases k with
      | zero =>
        rw [← hc]
        simp
      | succ k =>
        rw [List.getElem_cons_succ, ← htext k (Nat.lt_of_succ_lt_succ hk)]
        congr 1
        omega
    · intro h
      refine ⟨?_, fun k hk => ?_⟩
      · rw [← Int.add_zero i]
        exact h 0 (Nat.succ_pos _)
      · have hk := h (k + 1) (Nat.succ_lt_succ hk)
        rw [List.getElem_cons_succ] at hk
        rw [← hk]
        congr 1
        omega

/-- The characters before an index. -/
def before (s : Buffer) (n : ℕ) : List Byte := (List.range n).map fun i : ℕ => s i

theorem holds_before (s : Buffer) (n : ℕ) : Holds s 0 (before s n) := by
  rw [holds_iff]
  intro k hk
  simp [before]

@[simp] theorem length_before (s : Buffer) (n : ℕ) : (before s n).length = n := by
  simp [before]

theorem noNul_before {s : Buffer} {n : ℕ} (h : ∀ i : ℕ, i < n → s i ≠ 0) : NoNul (before s n) := by
  intro c hc
  obtain ⟨i, hi, rfl⟩ := List.mem_map.mp hc
  exact h i (List.mem_range.mp hi)

variable {cs : Charset} {s : Buffer} {bufSize : ℤ}

theorem base64urlToBase64_eq {n : ℕ} {s' : Buffer} {run : Traced (ℤ × Buffer)}
    (hrun : replaceBase64url cs bufSize.toNat 0 s = run)
    (hresult : run.result = .ok ((n : ℤ), s')) :
    base64urlToBase64 cs s bufSize =
      ⟨run.events ++ (padBase64 cs bufSize n s').events, (padBase64 cs bufSize n s').result⟩ := by
  unfold base64urlToBase64
  rw [hrun, Recorded.bind_of_ok _ hresult]

/-- Without a terminator in the buffer, the character after it is read. -/
theorem not_staysInBuffer (h : ∀ n : ℕ, (n : ℤ) < bufSize → s n ≠ 0) :
    ¬StaysInBuffer (base64urlToBase64 cs s bufSize) bufSize := by
  intro hstays
  obtain ⟨s', hs'⟩ := replaced_replaceBase64url cs bufSize.toNat
    (length_before s bufSize.toNat).le (noNul_before fun i hi => h i (by omega))
    (holds_before s _) (.inr (by simp))
  have hresult := hs'.result
  have hlast := hs'.last
  rw [length_before, Int.zero_add] at hresult hlast
  have hread := hstays.within (.read bufSize.toNat)
  rw [base64urlToBase64_eq rfl hresult] at hread
  have hin : (0 : ℤ) ≤ bufSize.toNat ∧ (bufSize.toNat : ℤ) < bufSize :=
    hread (List.mem_append_left _ hlast)
  omega

theorem within_writes (text : List Byte) (i : ℤ) :
    ∀ e ∈ writes i text, e.Within 0 0 i (i + text.length) := by
  induction text generalizing i with
  | nil => exact fun e he => absurd he List.not_mem_nil
  | cons b text ih =>
    intro e he
    rw [List.length_cons]
    rcases List.mem_cons.mp he with rfl | he
    · constructor <;> omega
    · exact (ih _ e he).mono (by omega) (by omega) (by omega) (by omega)

/-- With one, everything is in bounds. -/
theorem staysInBuffer {n : ℕ} (hn : (n : ℤ) < bufSize) (hzero : s n = 0)
    (hbefore : ∀ i : ℕ, i < n → s i ≠ 0) :
    StaysInBuffer (base64urlToBase64 cs s bufSize) bufSize := by
  have hlength : (before s n).length ≤ bufSize.toNat := by
    rw [length_before]
    omega
  have hend : s (0 + (before s n).length) = 0 := by
    rw [length_before, Int.zero_add]
    exact hzero
  obtain ⟨s', hs'⟩ := replaced_replaceBase64url cs bufSize.toNat hlength (noNul_before hbefore)
    (holds_before s n) (.inl hend)
  obtain ⟨hresult, hholds, -, hwithin, -⟩ := hs'
  rw [length_before, Int.zero_add] at hresult hwithin
  rw [base64urlToBase64_eq rfl hresult]
  have hnonzero : ∀ i : ℕ, i < n → s' i ≠ 0 := by
    intro i hi
    have hlength : i < ((before s n).map (fromBase64url cs)).length := by simpa using hi
    have hat := holds_iff.mp hholds i hlength
    rw [Int.zero_add] at hat
    rw [hat, List.getElem_map]
    exact fromBase64url_ne_zero (noNul_before hbefore _ (List.getElem_mem _))
  have hloop : ∀ e ∈ (replaceBase64url cs bufSize.toNat 0 s).events, e.Within 0 bufSize 0 bufSize :=
    fun e he => (hwithin e he).mono (by omega) (by omega) (by omega) (by omega)
  by_cases hroom : n % 4 ≠ 1 ∧ (n : ℤ) + paddingLength n < bufSize
  · rw [padBase64_of_room cs hroom.1 hroom.2]
    constructor
    · intro e he
      rcases List.mem_append.mp he with he | he
      · exact hloop e he
      · have hwrite : e.Within 0 0 n (n + (paddingLength n + 1 : ℕ)) := by
          have hwrite := within_writes _ _ e he
          rw [List.length_append, List.length_replicate] at hwrite
          exact hwrite
        exact hwrite.mono (by omega) (by omega) (by omega) (by omega)
    · intro rc t hrc _
      cases hrc
      have hstored := holds_stored s' n (List.replicate (paddingLength n) (cs.char '=') ++ [0])
      obtain ⟨hpads, hterminator, -⟩ := holds_append.mp hstored
      rw [List.length_replicate] at hterminator
      have hpadding : paddingLength n = (4 - n % 4) % 4 := rfl
      refine ⟨n + paddingLength n, by omega, by omega, ?_, fun i hi => ?_⟩
      · rw [Int.natCast_add]
        exact hterminator
      · by_cases hlt : i < n
        · rw [stored_of_lt (by omega)]
          exact hnonzero i hlt
        · have hpad := holds_iff.mp hpads (i - n) (by rw [List.length_replicate]; omega)
          have hindex : (n : ℤ) + (i - n : ℕ) = i := by omega
          rw [hindex, List.getElem_replicate] at hpad
          rw [hpad]
          cases cs <;> decide
  · have hno : n % 4 = 1 ∨ n % 4 ≠ 0 ∧ bufSize ≤ n + paddingLength n := by
      have hpadding : paddingLength n = (4 - n % 4) % 4 := rfl
      rw [not_and_or, not_not] at hroom
      omega
    obtain ⟨rc, hneg, hpad⟩ := padBase64_of_no_room cs hno s'
    rw [hpad]
    constructor
    · rw [List.append_nil]
      exact hloop
    · intro rc' t hrc hnonneg
      cases hrc
      omega

/-- The buffer is not left if and only if the text is terminated in it. -/
theorem staysInBuffer_iff (cs : Charset) (s : Buffer) (bufSize : ℤ) :
    StaysInBuffer (base64urlToBase64 cs s bufSize) bufSize ↔
      ∃ n : ℕ, (n : ℤ) < bufSize ∧ s n = 0 := by
  constructor
  · intro h
    by_contra hnone
    exact not_staysInBuffer (fun n hn hzero => hnone ⟨n, hn, hzero⟩) h
  · rintro h
    obtain ⟨hn, hzero⟩ := Nat.find_spec h
    exact staysInBuffer hn hzero fun i hi hi₀ =>
      Nat.find_min h hi ⟨by omega, hi₀⟩

/-- A full buffer of four characters: the terminator is stored after it. -/
theorem not_staysInBuffer_full :
    ¬StaysInBuffer (base64urlToBase64 .ascii (fun i => if i < 4 then 0x41 else 0) 4) 4 := by
  intro h
  have hwrite : (0 : ℤ) ≤ 4 ∧ (4 : ℤ) < 4 := h.within (.write 4 0) (by decide)
  omega

end Encodings
end ZoweCommon
