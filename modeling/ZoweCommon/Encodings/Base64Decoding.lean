import ZoweCommon.Encodings.Base64
import ZoweCommon.Lib.Base64Texts

/-! What decoding reads, writes and accepts. -/
namespace ZoweCommon
namespace Encodings

open Base64 (firstByte secondByte thirdByte)

/-- The 64 characters and the padding, as they are compiled. -/
def alphabet : Charset → PaddedBase64.Alphabet
  | .ascii => PaddedBase64.ascii
  | .ebcdic => PaddedBase64.ascii.translate Ebcdic.toIbm1047 Ebcdic.toIso88591
      Ebcdic.toIso88591_toIbm1047

theorem exact_alphabet (cs : Charset) : (alphabet cs).Exact := by
  cases cs with
  | ascii => exact PaddedBase64.exact_ascii
  | ebcdic =>
    exact PaddedBase64.exact_ascii.translate Ebcdic.toIso88591_toIbm1047
      Ebcdic.toIbm1047_toIso88591

theorem pad_alphabet (cs : Charset) : (alphabet cs).pad = cs.char '=' := by
  cases cs <;> rfl

/-- What is read for a character: its six bits, or the number for all that are no characters. -/
theorem getBitsForChar_eq (cs : Charset) (c : Byte) : getBitsForChar cs c =
    ((alphabet cs).sextet? c).elim (-1) fun bits => bits.zeroExtend 32 := by
  cases cs with
  | ascii =>
    have hall : ∀ c : Byte, getBitsForChar .ascii c =
        (PaddedBase64.asciiSextet? c).elim (-1) fun bits => bits.zeroExtend 32 := by decide +kernel
    exact hall c
  | ebcdic =>
    have hall : ∀ c : Byte, getBitsForChar .ebcdic c =
        (PaddedBase64.asciiSextet? (Ebcdic.toIso88591 c)).elim (-1) fun bits =>
          bits.zeroExtend 32 := by
      simp only [getBitsForChar, Charset.char, Ebcdic.toIbm1047_packed, Ebcdic.toIso88591_packed]
      decide +kernel
    exact hall c

theorem getBitsForChar_some {cs : Charset} {c : Byte} {bits : BitVec 6}
    (h : (alphabet cs).sextet? c = some bits) : getBitsForChar cs c = bits.zeroExtend 32 := by
  rw [getBitsForChar_eq, h]
  rfl

section Octets

variable (a b c d : BitVec 6)

theorem firstByte_eq : firstByte (a.zeroExtend 32) (b.zeroExtend 32) =
    PaddedBase64.firstOctet a b := by
  unfold firstByte PaddedBase64.firstOctet
  ext i hi
  have hcases : i = 0 ∨ i = 1 ∨ i = 2 ∨ i = 3 ∨ i = 4 ∨ i = 5 ∨ i = 6 ∨ i = 7 := by omega
  rcases hcases with rfl | rfl | rfl | rfl | rfl | rfl | rfl | rfl <;>
    simp [BitVec.getElem_sshiftRight]

theorem secondByte_eq : secondByte (b.zeroExtend 32) (c.zeroExtend 32) =
    PaddedBase64.secondOctet b c := by
  unfold secondByte PaddedBase64.secondOctet
  ext i hi
  have hcases : i = 0 ∨ i = 1 ∨ i = 2 ∨ i = 3 ∨ i = 4 ∨ i = 5 ∨ i = 6 ∨ i = 7 := by omega
  rcases hcases with rfl | rfl | rfl | rfl | rfl | rfl | rfl | rfl <;>
    simp [BitVec.getElem_sshiftRight]

theorem thirdByte_eq : thirdByte (c.zeroExtend 32) (d.zeroExtend 32) =
    PaddedBase64.thirdOctet c d := by
  unfold thirdByte PaddedBase64.thirdOctet
  ext i hi
  have hcases : i = 0 ∨ i = 1 ∨ i = 2 ∨ i = 3 ∨ i = 4 ∨ i = 5 ∨ i = 6 ∨ i = 7 := by omega
  rcases hcases with rfl | rfl | rfl | rfl | rfl | rfl | rfl | rfl <;> simp

end Octets

/-! Accesses -/

namespace Access

def IsWrite : Access → Prop
  | .read _ => False
  | .write _ _ => True

instance : DecidablePred IsWrite
  | .read _ => isFalse id
  | .write _ _ => isTrue trivial

/-- The reads and the writes are in a range each. -/
def Within (readFrom readTo writeFrom writeTo : ℤ) : Access → Prop
  | .read i => readFrom ≤ i ∧ i < readTo
  | .write i _ => writeFrom ≤ i ∧ i < writeTo

theorem Within.mono {e : Access} {r r' w w' : ℤ} (h : e.Within r r' w w') {p p' q q' : ℤ}
    (hr : p ≤ r) (hr' : r' ≤ p') (hw : q ≤ w) (hw' : w' ≤ q') : e.Within p p' q q' := by
  cases e with
  | read i => exact ⟨Int.le_trans hr h.1, Int.lt_of_lt_of_le h.2 hr'⟩
  | write i b => exact ⟨Int.le_trans hw h.1, Int.lt_of_lt_of_le h.2 hw'⟩

end Access

/-- The writes of a run, in order. -/
def written {α : Type} (run : Traced α) : List Access :=
  run.events.filter fun e => decide e.IsWrite

/-- The bytes of a text that is written from an index on. -/
def writes : ℤ → List Byte → List Access
  | _, [] => []
  | i, b :: data => .write i b :: writes (i + 1) data

theorem writes_append (i : ℤ) (data data' : List Byte) :
    writes i (data ++ data') = writes i data ++ writes (i + data.length) data' := by
  induction data generalizing i with
  | nil => simp [writes]
  | cons b data ih =>
    rw [List.cons_append, writes, writes, ih, List.cons_append, List.length_cons]
    congr 3
    omega

/-- A text that is in a buffer from an index on. -/
def Holds (s : Buffer) : ℤ → List Byte → Prop
  | _, [] => True
  | i, c :: text => s i = c ∧ Holds s (i + 1) text

theorem holds_append {s : Buffer} {i : ℤ} {text text' : List Byte} :
    Holds s i (text ++ text') ↔ Holds s i text ∧ Holds s (i + text.length) text' := by
  induction text generalizing i with
  | nil => simp [Holds]
  | cons c text ih =>
    have hindex : i + 1 + (text.length : ℤ) = i + ((c :: text).length : ℕ) := by
      rw [List.length_cons]
      omega
    rw [List.cons_append, Holds, Holds, ih, hindex, and_assoc]

/-! Decoding, group by group -/

section Decode

variable (cs : Charset) (s : Buffer)

/-- What is done for one full group. -/
def groupEvents (inCursor outCursor : ℤ) : List Access :=
  let ch0 := getBitsForChar cs (s inCursor)
  let ch1 := getBitsForChar cs (s (inCursor + 1))
  let ch2 := getBitsForChar cs (s (inCursor + 2))
  let ch3 := getBitsForChar cs (s (inCursor + 3))
  [.read inCursor, .read (inCursor + 1), .read (inCursor + 2), .read (inCursor + 3),
    .write outCursor (firstByte ch0 ch1), .write (outCursor + 1) (secondByte ch1 ch2),
    .write (outCursor + 2) (thirdByte ch2 ch3)]

theorem decodeFullGroups_succ (n : ℕ) (i o : ℤ) :
    decodeFullGroups cs s (n + 1) i o =
      ⟨groupEvents cs s i o ++ (decodeFullGroups cs s n (i + 4) (o + 3)).events,
        (decodeFullGroups cs s n (i + 4) (o + 3)).result⟩ := rfl

theorem result_decodeFullGroups (n : ℕ) (i o : ℤ) :
    (decodeFullGroups cs s n i o).result = .ok (i + 4 * n, o + 3 * n) := by
  induction n generalizing i o with
  | zero => simp [decodeFullGroups, pure, Recorded.pure]
  | succ n ih =>
    rw [decodeFullGroups_succ, ih]
    congr 2 <;> omega

theorem within_decodeFullGroups (n : ℕ) (i o : ℤ) :
    ∀ e ∈ (decodeFullGroups cs s n i o).events, e.Within i (i + 4 * n) o (o + 3 * n) := by
  induction n generalizing i o with
  | zero => exact fun e he => absurd he List.not_mem_nil
  | succ n ih =>
    rw [decodeFullGroups_succ]
    intro e he
    rcases List.mem_append.mp he with he | he
    · have hgroup : e.Within i (i + 4) o (o + 3) := by
        simp only [groupEvents, List.mem_cons, List.not_mem_nil, or_false] at he
        rcases he with rfl | rfl | rfl | rfl | rfl | rfl | rfl <;> constructor <;> omega
      exact hgroup.mono (by omega) (by omega) (by omega) (by omega)
    · exact (ih _ _ e he).mono (by omega) (by omega) (by omega) (by omega)

theorem length_written_decodeFullGroups (n : ℕ) (i o : ℤ) :
    (written (decodeFullGroups cs s n i o)).length = 3 * n := by
  induction n generalizing i o with
  | zero => rfl
  | succ n ih =>
    have hgroup : ((groupEvents cs s i o).filter fun e => decide e.IsWrite).length = 3 := rfl
    unfold written at ih ⊢
    rw [decodeFullGroups_succ, List.filter_append, List.length_append, ih, hgroup]
    omega

/-- What is done for a group of which bytes are missing. -/
def partialEvents (missing : ℕ) (i o : ℤ) : List Access :=
  let ch0 := getBitsForChar cs (s i)
  let ch1 := getBitsForChar cs (s (i + 1))
  let ch2 := getBitsForChar cs (s (i + 2))
  [.read i, .read (i + 1), .write o (firstByte ch0 ch1)] ++
    if missing = 1 then [.read (i + 2), .write (o + 1) (secondByte ch1 ch2)] else []

theorem decodePartialGroup_eq (missing : ℕ) (i o : ℤ) :
    decodePartialGroup cs s missing i o =
      ⟨partialEvents cs s missing i o, .ok (if missing = 1 then o + 2 else o + 1)⟩ := by
  by_cases h : missing = 1
  · subst h
    rfl
  · simp only [decodePartialGroup, partialEvents, h, if_false]
    rfl

/-- What is done after the full groups. -/
def tailEvents (n missing : ℕ) : List Access :=
  if missing = 0 then [] else partialEvents cs s missing (4 * n) (3 * n)

def decodedLength (n missing : ℕ) : ℤ :=
  if missing = 0 then 3 * n else if missing = 1 then 3 * n + 2 else 3 * n + 1

theorem decodeGroups_eq (n missing : ℕ) :
    decodeGroups cs s n missing =
      ⟨(decodeFullGroups cs s n 0 0).events ++ tailEvents cs s n missing,
        .ok (decodedLength n missing)⟩ := by
  have hresult := result_decodeFullGroups cs s n 0 0
  rw [Int.zero_add, Int.zero_add] at hresult
  unfold decodeGroups tailEvents decodedLength
  rw [Recorded.bind_of_ok _ hresult]
  dsimp only
  by_cases h : missing = 0
  · rw [if_pos h, if_pos h, if_pos h]
    rfl
  · rw [if_neg h, if_neg h, if_neg h, decodePartialGroup_eq]

theorem within_decodeGroups (n missing : ℕ) : ∀ e ∈ (decodeGroups cs s n missing).events,
    e.Within 0 (if missing = 0 then 4 * n else 4 * n + 3) 0
      (if missing = 0 then 3 * n else 3 * n + 2) := by
  rw [decodeGroups_eq]
  intro e he
  rcases List.mem_append.mp he with he | he
  · have hfull := within_decodeFullGroups cs s n 0 0 e he
    split <;> exact hfull.mono (by omega) (by omega) (by omega) (by omega)
  · unfold tailEvents at he
    split at he
    · exact absurd he List.not_mem_nil
    · rename_i hmissing
      have htail : e.Within (4 * n) (4 * n + 3) (3 * n) (3 * n + 2) := by
        simp only [partialEvents, List.mem_append, List.mem_cons, List.not_mem_nil, or_false] at he
        rcases he with (rfl | rfl | rfl) | he
        · constructor <;> omega
        · constructor <;> omega
        · constructor <;> omega
        · split at he
          · simp only [List.mem_cons, List.not_mem_nil, or_false] at he
            rcases he with rfl | rfl <;> constructor <;> omega
          · exact absurd he List.not_mem_nil
      rw [if_neg hmissing, if_neg hmissing]
      exact htail.mono (by omega) (by omega) (by omega) (by omega)

theorem length_written_decodeGroups (n missing : ℕ) :
    (written (decodeGroups cs s n missing)).length =
      if missing = 0 then 3 * n else if missing = 1 then 3 * n + 2 else 3 * n + 1 := by
  have hfull := length_written_decodeFullGroups cs s n 0 0
  unfold written at hfull ⊢
  rw [decodeGroups_eq, List.filter_append, List.length_append, hfull]
  unfold tailEvents partialEvents
  split_ifs <;> rfl

variable {cs s} {sLen : ℤ}

theorem decode_of_not_dvd (h : ¬4 ∣ sLen) :
    decodeBase64Unterminated cs s sLen = ⟨[], .ok (-1)⟩ := by
  unfold decodeBase64Unterminated
  rw [if_pos fun heq => h ⟨_, heq.symm⟩]
  rfl

theorem decode_zero : decodeBase64Unterminated cs s 0 = ⟨[], .ok 0⟩ := rfl

/-- Whether the last characters are padding decides what is decoded. -/
theorem decode_of_dvd {k : ℤ} (h : k ≠ 0) :
    decodeBase64Unterminated cs s (4 * k) =
      let last := decide (s (4 * k - 1) = cs.char '=')
      let before := decide (s (4 * k - 2) = cs.char '=')
      let groups := decodeGroups cs s (if last then k - 1 else k).toNat (last.toNat + before.toNat)
      ⟨.read (4 * k - 1) :: .read (4 * k - 2) :: groups.events, groups.result⟩ := by
  have hdiv : (4 * k).tdiv 4 = k := Int.mul_tdiv_cancel_left k (by decide)
  unfold decodeBase64Unterminated
  rw [hdiv, if_neg (not_not.mpr rfl), if_neg (by omega)]
  rfl

/-- Only the input is read, and no more is written than its groups have room for. -/
structure InBounds (run : Traced ℤ) (sLen : ℤ) : Prop where
  within : ∀ e ∈ run.events, e.Within 0 sLen 0 (3 * (sLen.toNat / 4 : ℕ))
  count : (written run).length ≤ 3 * (sLen.toNat / 4)

/-- A length is negative, or only the last character but one is padding. -/
def ReadsOutside (cs : Charset) (s : Buffer) (sLen : ℤ) : Prop :=
  sLen ≠ 0 ∧ 4 ∣ sLen ∧
    (sLen < 0 ∨ s (sLen - 1) ≠ cs.char '=' ∧ s (sLen - 2) = cs.char '=')

theorem inBounds_of_events {n : ℤ} (hevents : (decodeBase64Unterminated cs s sLen) = ⟨[], .ok n⟩) :
    InBounds (decodeBase64Unterminated cs s sLen) sLen := by
  rw [hevents]
  exact ⟨fun e he => absurd he List.not_mem_nil, Nat.zero_le _⟩

theorem inBounds_groups (cs : Charset) (s : Buffer) {k n missing : ℕ} {events : List Access}
    {r : Except Empty ℤ} (hk : 0 < k)
    (hevents : (decodeGroups cs s n missing).events = events)
    (hroom : if missing = 0 then n ≤ k else n < k) :
    InBounds ⟨.read (4 * k - 1) :: .read (4 * k - 2) :: events, r⟩ (4 * k) := by
  have hsize : ((4 * k : ℤ)).toNat / 4 = k := by omega
  have hwithin := within_decodeGroups cs s n missing
  have hcount := length_written_decodeGroups cs s n missing
  rw [hevents] at hwithin
  unfold written at hcount
  rw [hevents] at hcount
  constructor
  · rw [hsize]
    intro e he
    rcases List.mem_cons.mp he with rfl | he
    · constructor <;> omega
    rcases List.mem_cons.mp he with rfl | he
    · constructor <;> omega
    · have hin := hwithin e he
      split_ifs at hin hroom with hmissing
      · exact hin.mono (by omega) (by omega) (by omega) (by omega)
      · exact hin.mono (by omega) (by omega) (by omega) (by omega)
  · rw [hsize]
    show (events.filter fun e => decide e.IsWrite).length ≤ _
    rw [hcount]
    split_ifs at hroom ⊢ <;> omega

/-- The accesses are in bounds, unless the padding is such that a group too much is decoded. -/
theorem decodesInBounds_iff (cs : Charset) (s : Buffer) (sLen : ℤ) :
    InBounds (decodeBase64Unterminated cs s sLen) sLen ↔ ¬ReadsOutside cs s sLen := by
  by_cases hdvd : 4 ∣ sLen
  swap
  · exact iff_of_true (inBounds_of_events (decode_of_not_dvd hdvd)) fun h => hdvd h.2.1
  obtain ⟨k, rfl⟩ := hdvd
  by_cases hzero : k = 0
  · subst hzero
    exact iff_of_true (inBounds_of_events decode_zero) fun h => h.1 rfl
  by_cases hneg : k < 0
  · -- the last character is looked for before the buffer
    refine iff_of_false (fun h => ?_) (not_not.mpr ⟨by omega, ⟨k, rfl⟩, .inl (by omega)⟩)
    have hin := h.within (.read (4 * k - 1))
    rw [decode_of_dvd hzero] at hin
    have hread : 0 ≤ 4 * k - 1 ∧ 4 * k - 1 < 4 * k := hin List.mem_cons_self
    omega
  obtain ⟨n, rfl⟩ := Int.eq_ofNat_of_zero_le (a := k) (by omega)
  have hpos : 0 < n := by omega
  rw [decode_of_dvd hzero]
  by_cases hlast : s (4 * n - 1) = cs.char '='
  · refine iff_of_true ?_ fun h => ?_
    · dsimp only
      rw [decide_eq_true hlast, if_pos rfl]
      refine inBounds_groups cs s hpos rfl ?_
      rw [if_neg (by simp)]
      omega
    · rcases h.2.2 with h | h
      · omega
      · exact h.1 hlast
  · dsimp only
    rw [decide_eq_false hlast]
    by_cases hbefore : s (4 * n - 2) = cs.char '='
    · refine iff_of_false (fun h => ?_) (not_not.mpr ⟨by omega, ⟨n, rfl⟩, .inr ⟨hlast, hbefore⟩⟩)
      rw [decide_eq_true hbefore, decodeGroups_eq] at h
      have hin := h.within (.read (4 * n)) ?_
      · have hread : 0 ≤ 4 * (n : ℤ) ∧ 4 * (n : ℤ) < 4 * n := hin
        omega
      · refine List.mem_cons_of_mem _ (List.mem_cons_of_mem _ (List.mem_append_right _ ?_))
        exact List.mem_cons_self
    · refine iff_of_true ?_ fun h => ?_
      · rw [decide_eq_false hbefore]
        refine inBounds_groups cs s hpos rfl ?_
        show (n : ℤ).toNat ≤ n
        omega
      · rcases h.2.2 with h | h
        · omega
        · exact hbefore h.2

/-- The third of four characters is padding, but not the last. -/
theorem not_decodesInBounds : ¬InBounds (decodeBase64Unterminated .ascii
    (fun i => if i = 2 then 0x3D else 0x41) 4) 4 := by
  intro h
  have hin : 0 ≤ (4 : ℤ) ∧ (4 : ℤ) < 4 := h.within (.read 4) (by decide)
  omega

/-! What is decoded of base 64 -/

theorem written_decodeFullGroups (n : ℕ) {front octets : List Byte} {i : ℤ} (o : ℤ)
    (hlength : front.length = 4 * n) (hholds : Holds s i front)
    (hfront : ∀ e ∈ front, ((alphabet cs).sextet? e).isSome)
    (hdecode : PaddedBase64.decode (alphabet cs) front = some octets) :
    written (decodeFullGroups cs s n i o) = writes o octets := by
  induction n generalizing front octets i o with
  | zero =>
    rw [List.length_eq_zero_iff.mp hlength] at hdecode
    cases hdecode
    rfl
  | succ n ih =>
    match front, hlength with
    | a :: b :: c :: d :: front, hlength =>
      have hrest : front.length = 4 * n := by
        simp only [List.length_cons] at hlength
        omega
      obtain ⟨ha, hb, hc, hd, hholds⟩ := hholds
      simp only [List.forall_mem_cons] at hfront
      obtain ⟨hsa, hsb, hsc, hsd, hfront⟩ := hfront
      obtain ⟨x, hx⟩ := Option.isSome_iff_exists.mp hsa
      obtain ⟨y, hy⟩ := Option.isSome_iff_exists.mp hsb
      obtain ⟨z, hz⟩ := Option.isSome_iff_exists.mp hsc
      obtain ⟨w, hw⟩ := Option.isSome_iff_exists.mp hsd
      simp only [PaddedBase64.decode, hx, hy, hz, hw, Option.map_eq_some_iff] at hdecode
      obtain ⟨rest, hdecode, rfl⟩ := hdecode
      have hi₂ : i + 1 + 1 = i + 2 := by omega
      have hi₃ : i + 2 + 1 = i + 3 := by omega
      have hi₄ : i + 3 + 1 = i + 4 := by omega
      have ho₂ : o + 1 + 1 = o + 2 := by omega
      have ho₃ : o + 2 + 1 = o + 3 := by omega
      rw [hi₂] at hc
      rw [hi₂, hi₃] at hd
      rw [hi₂, hi₃, hi₄] at hholds
      have ih := ih (o + 3) hrest hholds hfront hdecode
      unfold written at ih ⊢
      rw [decodeFullGroups_succ, List.filter_append, ih]
      simp only [groupEvents, ha, hb, hc, hd, getBitsForChar_some hx, getBitsForChar_some hy,
        getBitsForChar_some hz, getBitsForChar_some hw, firstByte_eq, secondByte_eq, thirdByte_eq,
        List.cons_append, List.nil_append, writes, ho₂, ho₃]
      rfl

/-- What is decoded and stored. -/
structure DecodesTo (run : Traced ℤ) (data : List Byte) : Prop where
  result : run.result = .ok data.length
  written : written run = writes 0 data

theorem decodesTo_groups {n : ℕ} {front octets : List Byte} {before : List Access}
    (missing : ℕ) (tail : List Byte)
    (hlength : front.length = 4 * n) (hholds : Holds s 0 front)
    (hfront : ∀ e ∈ front, ((alphabet cs).sextet? e).isSome)
    (hdecode : PaddedBase64.decode (alphabet cs) front = some octets)
    (hoctets : octets.length = 3 * n) (hbefore : ∀ e ∈ before, ¬e.IsWrite)
    (hcount : decodedLength n missing = 3 * n + tail.length)
    (htail : (tailEvents cs s n missing).filter (fun e => decide e.IsWrite) =
      writes (3 * n) tail) :
    DecodesTo ⟨before ++ (decodeGroups cs s n missing).events,
      (decodeGroups cs s n missing).result⟩ (octets ++ tail) := by
  have hwritten := written_decodeFullGroups n 0 hlength hholds hfront hdecode
  have hnone : before.filter (fun e => decide e.IsWrite) = [] :=
    List.filter_eq_nil_iff.mpr fun e he => by simpa using hbefore e he
  rw [decodeGroups_eq]
  constructor
  · rw [hcount, List.length_append, hoctets]
    rfl
  · unfold Encodings.written at hwritten ⊢
    have hindex : (0 : ℤ) + (3 * n : ℕ) = 3 * n := by omega
    rw [List.filter_append, List.filter_append, hnone, hwritten, htail, writes_append, hoctets,
      hindex]
    rfl

theorem decodesTo_of_decode {text data : List Byte} (hall : Holds s 0 text)
    (hdecode : PaddedBase64.decode (alphabet cs) text = some data) :
    DecodesTo (decodeBase64Unterminated cs s text.length) data := by
  by_cases hne : text = []
  · subst hne
    cases hdecode
    exact ⟨rfl, rfl⟩
  have htext := PaddedBase64.isText_iff.mpr ⟨data, hdecode⟩
  obtain ⟨front, a, b, c, d, rfl, ⟨n, hlength⟩, hfront, hlast⟩ := htext.exists_last hne
  obtain ⟨octets, hoctets, hoctet, happend⟩ :=
    PaddedBase64.decode_append n hlength hfront [a, b, c, d]
  rw [hdecode] at happend
  obtain ⟨tail, htail, rfl⟩ := Option.map_eq_some_iff.mp happend.symm
  obtain ⟨hholds, hgroup⟩ := holds_append.mp hall
  obtain ⟨ha, hb, hc, hd, -⟩ := hgroup
  have hstart : (0 : ℤ) + (front.length : ℕ) = 4 * n := by omega
  rw [hstart] at ha hb hc hd
  have hc₂ : s (4 * (n + 1) - 2) = c := by
    rw [← hc]
    congr 1
    omega
  have hd₂ : s (4 * (n + 1) - 1) = d := by
    rw [← hd]
    congr 1
    omega
  have hc₃ : s (4 * n + 2) = c := hc
  have hsize : (((front ++ [a, b, c, d]).length : ℕ) : ℤ) = 4 * (n + 1) := by
    rw [List.length_append, hlength]
    show ((4 * n + 4 : ℕ) : ℤ) = _
    omega
  rw [hsize, decode_of_dvd (by omega), hc₂, hd₂]
  have hpad {e : Byte} {x : BitVec 6} (h : (alphabet cs).sextet? e = some x) : e ≠ cs.char '=' := by
    rintro rfl
    rw [← pad_alphabet, (alphabet cs).sextet?_pad] at h
    cases h
  have hreads : ∀ e ∈ [Access.read (4 * (n + 1) - 1), .read (4 * (n + 1) - 2)], ¬e.IsWrite := by
    simp [Access.IsWrite]
  obtain ⟨x, y, hx, hy, hrest⟩ := PaddedBase64.decode_cons_iff.mp htail
  rcases hrest with ⟨z, w, rest, hz, hw, hrest, rfl⟩ | ⟨z, hz, rfl, -, rfl⟩ | ⟨rfl, rfl, -, rfl⟩
  · cases hrest
    have hgroups : ((n : ℤ) + 1).toNat = n + 1 := by omega
    have hfour : (front ++ [a, b, c, d]).length = 4 * (n + 1) := by
      rw [List.length_append, hlength]
      rfl
    have hthree : (octets ++ [PaddedBase64.firstOctet x y, PaddedBase64.secondOctet y z,
        PaddedBase64.thirdOctet z w]).length = 3 * (n + 1) := by
      rw [List.length_append, hoctets]
      rfl
    have hchars : ∀ e ∈ front ++ [a, b, c, d], ((alphabet cs).sextet? e).isSome := by
      intro e he
      rcases List.mem_append.mp he with he | he
      · exact hfront e he
      · simp only [List.mem_cons, List.not_mem_nil, or_false] at he
        rcases he with rfl | rfl | rfl | rfl
        · rw [hx]; rfl
        · rw [hy]; rfl
        · rw [hz]; rfl
        · rw [hw]; rfl
    have hfull := decodesTo_groups 0 [] hfour hall hchars hdecode hthree hreads rfl rfl
    rw [List.append_nil] at hfull
    dsimp only
    rw [decide_eq_false (hpad hz), decide_eq_false (hpad hw)]
    simp only [Bool.false_eq_true, if_false, hgroups]
    exact hfull
  · have hgroups : ((n : ℤ) + 1 - 1).toNat = n := by omega
    have htailEvents : (tailEvents cs s n 1).filter (fun e => decide e.IsWrite) =
        writes (3 * n) [PaddedBase64.firstOctet x y, PaddedBase64.secondOctet y z] := by
      rw [← firstByte_eq, ← secondByte_eq, ← getBitsForChar_some hx, ← getBitsForChar_some hy,
        ← getBitsForChar_some hz, ← ha, ← hb, ← hc₃]
      rfl
    have hpart :=
      decodesTo_groups 1 [_, _] hlength hholds hfront hoctet hoctets hreads rfl htailEvents
    dsimp only
    rw [decide_eq_false (hpad hz), pad_alphabet, decide_eq_true rfl]
    simp only [if_true, hgroups]
    exact hpart
  · have hgroups : ((n : ℤ) + 1 - 1).toNat = n := by omega
    have htailEvents : (tailEvents cs s n 2).filter (fun e => decide e.IsWrite) =
        writes (3 * n) [PaddedBase64.firstOctet x y] := by
      rw [← firstByte_eq, ← getBitsForChar_some hx, ← getBitsForChar_some hy, ← ha, ← hb]
      rfl
    have hpart := decodesTo_groups 2 [_] hlength hholds hfront hoctet hoctets hreads rfl htailEvents
    dsimp only
    rw [pad_alphabet, decide_eq_true rfl]
    simp only [if_true, hgroups]
    exact hpart

end Decode

/-! What is rejected -/

section Rejection

variable {cs : Charset} {s : Buffer} {text text' data : List Byte}

theorem writes_injective {i : ℤ} {data data' : List Byte} (h : writes i data = writes i data') :
    data = data' := by
  induction data generalizing i data' with
  | nil =>
    cases data' with
    | nil => rfl
    | cons b data' => cases h
  | cons b data ih =>
    cases data' with
    | nil => cases h
    | cons b' data' =>
      obtain ⟨hhead, htail⟩ := List.cons.inj h
      rw [(Access.write.inj hhead).2, ih htail]

theorem holds_getD (before text : List Byte) :
    Holds (fun i => (before ++ text).getD i.toNat 0) before.length text := by
  induction text generalizing before with
  | nil => trivial
  | cons c text ih =>
    refine ⟨by simp, ?_⟩
    have hrest := ih (before ++ [c])
    rw [List.append_assoc, List.length_append] at hrest
    exact hrest

theorem exists_holds (text : List Byte) : ∃ s, Holds s 0 text := ⟨_, holds_getD [] text⟩

/-- A length is all that is ever rejected. -/
theorem result_of_dvd (cs : Charset) (s : Buffer) {sLen : ℤ} (h : 4 ∣ sLen) :
    ∃ n : ℕ, (decodeBase64Unterminated cs s sLen).result = .ok (n : ℤ) := by
  have hlength (n missing : ℕ) : ∃ m : ℕ, decodedLength n missing = m := by
    unfold decodedLength
    split_ifs
    · exact ⟨3 * n, by omega⟩
    · exact ⟨3 * n + 2, by omega⟩
    · exact ⟨3 * n + 1, by omega⟩
  obtain ⟨k, rfl⟩ := h
  by_cases hzero : k = 0
  · subst hzero
    exact ⟨0, rfl⟩
  · rw [decode_of_dvd hzero]
    dsimp only
    rw [decodeGroups_eq]
    obtain ⟨m, hm⟩ := hlength _ _
    exact ⟨m, congrArg Except.ok hm⟩

def Rejected (cs : Charset) (text : List Byte) : Prop :=
  ∀ s, Holds s 0 text → (decodeBase64Unterminated cs s text.length).result = .ok (-1)

/-- What is not base 64 is rejected, and what is not tells its bytes apart. -/
structure RejectsOthers (cs : Charset) (text text' : List Byte) : Prop where
  left : ¬PaddedBase64.IsText (alphabet cs) text → Rejected cs text
  right : ¬PaddedBase64.IsText (alphabet cs) text' → Rejected cs text'
  apart : ∀ s s' data, Holds s 0 text → Holds s' 0 text' →
    DecodesTo (decodeBase64Unterminated cs s text.length) data →
    DecodesTo (decodeBase64Unterminated cs s' text'.length) data →
    PaddedBase64.SameUsedBits (alphabet cs) text text'

theorem not_rejected (h : 4 ∣ text.length) : ¬Rejected cs text := by
  intro hrejected
  obtain ⟨s, hs⟩ := exists_holds text
  obtain ⟨n, hn⟩ := result_of_dvd cs s (Int.natCast_dvd_natCast.mpr h)
  have heq := Except.ok.inj (hn.symm.trans (hrejected s hs))
  omega

theorem decode_of_decodesTo (htext : 4 ∣ text.length → PaddedBase64.IsText (alphabet cs) text)
    (hholds : Holds s 0 text)
    (hdata : DecodesTo (decodeBase64Unterminated cs s text.length) data) :
    PaddedBase64.decode (alphabet cs) text = some data := by
  by_cases hdvd : 4 ∣ text.length
  · obtain ⟨d, hd⟩ := PaddedBase64.isText_iff.mp (htext hdvd)
    have hwritten := (decodesTo_of_decode hholds hd).written
    rw [hdata.written] at hwritten
    rw [writes_injective hwritten]
    exact hd
  · have hnegative := hdata.result
    rw [decode_of_not_dvd fun h => hdvd (Int.natCast_dvd_natCast.mp h)] at hnegative
    have heq := Except.ok.inj hnegative
    omega

/-- Of the texts whose length is a multiple of four none is rejected. -/
theorem rejectsOthers_iff (cs : Charset) (text text' : List Byte) :
    RejectsOthers cs text text' ↔
      (4 ∣ text.length → PaddedBase64.IsText (alphabet cs) text) ∧
      (4 ∣ text'.length → PaddedBase64.IsText (alphabet cs) text') := by
  constructor
  · intro h
    exact ⟨fun hdvd => by_contra fun hnot => not_rejected hdvd (h.left hnot),
      fun hdvd => by_contra fun hnot => not_rejected hdvd (h.right hnot)⟩
  · rintro ⟨h, h'⟩
    have hreject {t : List Byte} (ht : 4 ∣ t.length → PaddedBase64.IsText (alphabet cs) t)
        (hnot : ¬PaddedBase64.IsText (alphabet cs) t) : Rejected cs t := by
      intro s _
      rw [decode_of_not_dvd fun hdvd => hnot (ht (Int.natCast_dvd_natCast.mp hdvd))]
    exact ⟨hreject h, hreject h', fun s s' data hs hs' hdata hdata' =>
      PaddedBase64.sameUsedBits_of_decode (exact_alphabet cs) (decode_of_decodesTo h hs hdata)
        (decode_of_decodesTo h' hs' hdata')⟩

/-- Four exclamation marks are decoded to three bytes. -/
theorem not_rejectsOthers : ¬RejectsOthers .ascii [0x21, 0x21, 0x21, 0x21] [] := by
  intro h
  have hnot : ¬PaddedBase64.IsText (alphabet .ascii) [0x21, 0x21, 0x21, 0x21] := by
    rw [PaddedBase64.isText_iff]
    rintro ⟨data, hdata⟩
    cases hdata
  exact not_rejected (by decide) (h.left hnot)

end Rejection

end Encodings
end ZoweCommon
