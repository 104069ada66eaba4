import ZoweCommon.Jwt.Splitting

/-! The parts of a token are moved and decoded within the two buffers. -/
namespace ZoweCommon
namespace JsonWebToken
namespace Memory

open Slices (slice splice)

/-! Pieces of a buffer -/

/-- The piece is in the buffer at its place. -/
structure Holds (buf : List Byte) (piece : ℕ × List Byte) : Prop where
  within : piece.1 + piece.2.length ≤ buf.length
  slice_eq : slice buf piece.1 piece.2.length = piece.2

namespace Holds

variable {buf bytes : List Byte} {piece : ℕ × List Byte} {place : ℕ}

theorem splice_same (h : place + bytes.length ≤ buf.length) :
    Holds (splice buf place bytes) (place, bytes) where
  within := by rwa [Slices.length_splice h]
  slice_eq := Slices.slice_splice h

theorem append (hpiece : Holds buf piece) (rest : List Byte) : Holds (buf ++ rest) piece where
  within := by
    rw [List.length_append]
    exact hpiece.within.trans (Nat.le_add_right _ _)
  slice_eq := by rw [Slices.slice_append_left _ hpiece.within, hpiece.slice_eq]

variable (hpiece : Holds buf piece) (h : place + bytes.length ≤ buf.length)
include hpiece h

theorem splice_before (hplace : piece.1 + piece.2.length ≤ place) :
    Holds (splice buf place bytes) piece where
  within := by
    rw [Slices.length_splice h]
    exact hpiece.within
  slice_eq := by rw [Slices.slice_splice_before h hplace, hpiece.slice_eq]

theorem splice_after (hplace : place + bytes.length ≤ piece.1) :
    Holds (splice buf place bytes) piece where
  within := by
    rw [Slices.length_splice h]
    exact hpiece.within
  slice_eq := by rw [Slices.slice_splice_after h hplace, hpiece.slice_eq]

end Holds

theorem storeAt_eq {buf bytes : List Byte} {place : ℕ} (h : place + bytes.length ≤ buf.length) :
    storeAt buf place bytes = .ok (splice buf place bytes) :=
  if_pos h

theorem memmove_eq {buf : List Byte} {piece : ℕ × List Byte} (hpiece : Holds buf piece) {dst : ℕ}
    (h : dst + piece.2.length ≤ buf.length) :
    memmove buf dst piece.1 piece.2.length = .ok (splice buf dst piece.2) := by
  have hwithin := hpiece.within
  unfold memmove
  rw [if_pos ⟨by omega, by omega⟩, Int.toNat_natCast, hpiece.slice_eq, storeAt_eq h]

/-! Moving the parts -/

def memoryLengths (pieces : List (ℕ × List Byte)) : List ℤ := pieces.map fun p => p.2.length

/-- The lengths before there is room for the padding. -/
def shortLengths (pieces : List (ℕ × List Byte)) : List ℤ :=
  pieces.map fun p => p.2.length - BASE64URL_EXTRA_BYTES

def movedPieces (pieces : List (ℕ × List Byte)) : List (ℕ × List Byte) :=
  pieces.mapIdx fun i p => (p.1 + i * BASE64URL_EXTRA_BYTES, p.2)

theorem movedPieces_concat (pieces : List (ℕ × List Byte)) (p : ℕ × List Byte) :
    movedPieces (pieces ++ [p]) =
      movedPieces pieces ++ [(p.1 + pieces.length * BASE64URL_EXTRA_BYTES, p.2)] :=
  List.mapIdx_concat

/-- No part begins before the one before it ends, its extra bytes apart. -/
def Apart (pieces : List (ℕ × List Byte)) : Prop :=
  pieces.Pairwise fun p q => p.1 + p.2.length ≤ q.1 + BASE64URL_EXTRA_BYTES

theorem moveParts_succ {i : ℕ} {buf d : List Byte} {A A' : List Pointer} {B B' : List ℤ}
    {piece : ℕ × List Byte} {n : ℤ} (hA : i + 1 = A.length) (hB : i = B.length)
    (hpiece : Holds buf piece)
    (h : piece.1 + (i + 1) * BASE64URL_EXTRA_BYTES + piece.2.length ≤ buf.length) :
    moveParts (i + 1) ⟨buf, d, A ++ .text piece.1 :: A', B ++ n :: (piece.2.length : ℤ) :: B'⟩ =
      moveParts i ⟨splice buf (piece.1 + (i + 1) * BASE64URL_EXTRA_BYTES) piece.2, d,
        A ++ .text (piece.1 + (i + 1) * BASE64URL_EXTRA_BYTES) :: A',
        B ++ (n + BASE64URL_EXTRA_BYTES) :: (piece.2.length : ℤ) :: B'⟩ := by
  have hlength : getAt (B ++ n :: (piece.2.length : ℤ) :: B') (i + 1) = .ok (piece.2.length : ℤ) := by
    rw [List.append_cons]
    exact getAt_append _ (by rw [List.length_append, hB]; rfl)
  rw [moveParts]
  simp only [getAt_append _ hA, hlength, Exec.ok_bind, textPlace, Exec.pure_eq_ok,
    memmove_eq hpiece h, setAt_append _ _ hA, addRoom, getAt_append _ hB, setAt_append _ _ hB]

theorem memory_moveParts (i : ℕ) {init tail : List (ℕ × List Byte)} {p : ℕ × List Byte}
    {buf d : List Byte} {nulls : List Pointer} {zs : List ℤ} (hlength : init.length = i)
    (hapart : Apart (init ++ [p])) (hholds : ∀ q ∈ init ++ [p], Holds buf q) {bound : ℕ}
    (hp : p.1 + i * BASE64URL_EXTRA_BYTES + p.2.length ≤ bound) (hbound : bound ≤ buf.length)
    (htail : ∀ q ∈ tail, bound ≤ q.1 ∧ Holds buf q) :
    ∃ buf', moveParts i ⟨buf, d, textPointers init ++ .text p.1 :: (textPointers tail ++ nulls),
        shortLengths init ++ (p.2.length : ℤ) :: (memoryLengths tail ++ zs)⟩ =
      .ok ⟨buf', d, textPointers (movedPieces (init ++ [p]) ++ tail) ++ nulls,
        memoryLengths (movedPieces (init ++ [p]) ++ tail) ++ zs⟩ ∧
      buf'.length = buf.length ∧ ∀ q ∈ movedPieces (init ++ [p]) ++ tail, Holds buf' q := by
  induction i generalizing init p tail buf bound with
  | zero =>
    rw [List.length_eq_zero_iff] at hlength
    subst hlength
    refine ⟨buf, rfl, rfl, ?_⟩
    rw [List.nil_append] at hholds
    rintro q (_ | ⟨_, hq⟩)
    · exact hholds p (List.mem_singleton_self p)
    · exact (htail q hq).2
  | succ i ih =>
    rcases List.eq_nil_or_concat' init with rfl | ⟨init, q, rfl⟩
    · exact absurd hlength.symm (Nat.succ_ne_zero i)
    · rw [List.length_append, List.length_singleton, Nat.add_right_cancel_iff] at hlength
      obtain ⟨hapart, -, hbefore⟩ := List.pairwise_append.mp hapart
      have hqp : ∀ r ∈ init ++ [q], r.1 + r.2.length ≤ p.1 + BASE64URL_EXTRA_BYTES :=
        fun r hr => hbefore r hr p (List.mem_singleton_self p)
      have hheld := hholds p (by simp)
      have hroom : p.1 + (i + 1) * BASE64URL_EXTRA_BYTES + p.2.length ≤ buf.length := hp.trans hbound
      have hextra : p.1 + BASE64URL_EXTRA_BYTES ≤ p.1 + (i + 1) * BASE64URL_EXTRA_BYTES := by
        rw [Nat.add_mul]
        omega
      obtain ⟨buf', hrun, hsame, hmoved⟩ := @ih init
        ((p.1 + (i + 1) * BASE64URL_EXTRA_BYTES, p.2) :: tail) q
        (splice buf (p.1 + (i + 1) * BASE64URL_EXTRA_BYTES) p.2) hlength hapart
        (fun r hr => (hholds r (List.mem_append_left _ hr)).splice_before hroom
          ((hqp r hr).trans hextra))
        (p.1 + (i + 1) * BASE64URL_EXTRA_BYTES)
        (by
          have hq := hqp q (by simp)
          rw [Nat.add_mul]
          omega)
        (by
          rw [Slices.length_splice hroom]
          omega)
        (by
          rw [List.forall_mem_cons]
          refine ⟨⟨le_rfl, Holds.splice_same hroom⟩, fun r hr => ?_⟩
          obtain ⟨hafter, hr⟩ := htail r hr
          exact ⟨by omega, hr.splice_after hroom (hp.trans hafter)⟩)
      refine ⟨buf', ?_, hsame.trans (Slices.length_splice hroom), ?_⟩
      · have hpieces : movedPieces (init ++ [q] ++ [p]) ++ tail = movedPieces (init ++ [q]) ++
            (p.1 + (i + 1) * BASE64URL_EXTRA_BYTES, p.2) :: tail := by
          rw [movedPieces_concat (init ++ [q]), List.length_append, hlength, List.append_assoc]
          rfl
        have hlengths : shortLengths (init ++ [q]) ++ (p.2.length : ℤ) :: (memoryLengths tail ++ zs) =
            shortLengths init ++ (q.2.length - BASE64URL_EXTRA_BYTES : ℤ) :: (p.2.length : ℤ) ::
              (memoryLengths tail ++ zs) := by
          unfold shortLengths
          rw [List.map_append, List.append_assoc]
          rfl
        have hpointers : textPointers (init ++ [q]) ++
            .text (p.1 + (i + 1) * BASE64URL_EXTRA_BYTES) :: (textPointers tail ++ nulls) =
            textPointers init ++ .text q.1 ::
              (textPointers ((p.1 + (i + 1) * BASE64URL_EXTRA_BYTES, p.2) :: tail) ++ nulls) := by
          unfold textPointers
          rw [List.map_append, List.append_assoc]
          rfl
        rw [hlengths, hpieces, moveParts_succ (by simp [textPointers, hlength])
          (by simp [shortLengths, hlength]) hheld hroom, Int.sub_add_cancel, hpointers]
        exact hrun
      · rw [movedPieces_concat, List.length_append, hlength, List.append_assoc]
        exact hmoved

/-! Decoding the parts -/

theorem replaceChar_append (pre done rest : List Byte) (c : Byte) :
    replaceChar (pre ++ (done ++ c :: rest)) (pre.length + done.length) c =
      .ok (pre ++ ((done ++ [toBase64 c]) ++ rest)) := by
  have hstore (b : Byte) : storeAt (pre ++ (done ++ c :: rest)) (pre.length + done.length) [b] =
      .ok (pre ++ ((done ++ [b]) ++ rest)) := by
    have happend := @storeAt_append (pre ++ done) [c] [b] rest _ List.length_append.symm rfl
    simpa only [List.append_assoc, List.cons_append, List.nil_append] using happend
  unfold replaceChar toBase64
  split_ifs
  · exact hstore _
  · exact hstore _
  · simp only [List.append_assoc, List.cons_append, List.nil_append, Exec.pure_eq_ok]

theorem toBase64From_append (pre : List Byte) {s : List Byte} (hs : NoNul s) (done rest : List Byte)
    (fuel : ℕ) (hfuel : s.length < fuel) (bufSize : ℤ)
    (hsize : ((done.length + s.length : ℕ) : ℤ) < bufSize) :
    toBase64From fuel (pre ++ (done ++ (s ++ 0 :: rest))) pre.length bufSize done.length =
      .ok (done.length + s.length, pre ++ (done ++ (s.map toBase64 ++ 0 :: rest))) := by
  induction s generalizing done fuel with
  | nil =>
    obtain ⟨fuel, rfl⟩ := Nat.exists_eq_add_one_of_ne_zero (Nat.ne_of_gt hfuel)
    rw [toBase64From, List.nil_append, ← List.append_assoc, getAt_append _ List.length_append.symm,
      Exec.ok_bind, if_neg (fun h => h.1 rfl), List.append_assoc]
    rfl
  | cons c s ih =>
    obtain ⟨fuel, rfl⟩ := Nat.exists_eq_add_one_of_ne_zero (Nat.ne_of_gt (Nat.zero_lt_of_lt hfuel))
    have hc : c ≠ 0 := hs c List.mem_cons_self
    rw [List.length_cons] at hsize hfuel
    have hstep := replaceChar_append pre done (s ++ 0 :: rest) c
    have hget : getAt (pre ++ (done ++ (c :: s ++ 0 :: rest))) (pre.length + done.length) = .ok c := by
      rw [List.cons_append, ← List.append_assoc]
      exact getAt_append _ List.length_append.symm
    have hrest := @ih (fun b hb => hs b (List.mem_cons_of_mem _ hb)) (done ++ [toBase64 c]) fuel
      (by omega) (by rw [List.length_append, List.length_singleton]; omega)
    rw [List.length_append, List.length_singleton] at hrest
    rw [toBase64From, hget, Exec.ok_bind, if_pos ⟨hc, by omega⟩, List.cons_append,
      hstep, Exec.ok_bind, hrest,
      List.length_cons, List.map_cons, Nat.add_assoc, Nat.add_comm 1, List.append_assoc]
    rfl

theorem memory_base64urlToBase64 (pre : List Byte) {part : List Byte} (hpart : NoNul part)
    (x y : Byte) (post : List Byte) :
    base64urlToBase64 (pre ++ (part ++ [0, x, y] ++ post)) pre.length (part ++ [0, x, y]).length =
      .ok ((JsonWebToken.base64urlToBase64 (part ++ [0, x, y])).1,
        pre ++ ((JsonWebToken.base64urlToBase64 (part ++ [0, x, y])).2 ++ post)) := by
  have hrun := toBase64From_append pre hpart [] (x :: y :: post)
    ((pre ++ (part ++ [0, x, y] ++ post)).length + 1) (by
      rw [List.length_append, List.length_append, List.length_append]
      omega)
    (part ++ [0, x, y]).length (by
      rw [List.length_append, List.length_nil, List.length_cons]
      omega)
  have hbuf : pre ++ (part ++ [0, x, y] ++ post) = pre ++ ([] ++ (part ++ 0 :: x :: y :: post)) := by
    simp only [List.append_assoc, List.cons_append, List.nil_append]
  have hstrlen : strlen (part ++ [0, x, y]) = part.length := strlen_append hpart [x, y]
  rw [List.length_nil, ← hbuf, Nat.zero_add, List.nil_append] at hrun
  unfold base64urlToBase64 JsonWebToken.base64urlToBase64
  rw [hrun, Exec.ok_bind]
  have hsize : (part ++ [0, x, y]).length = part.length + 3 := by rw [List.length_append]; rfl
  have hcases : part.length % 4 = 0 ∨ part.length % 4 = 1 ∨ part.length % 4 = 2 ∨
    part.length % 4 = 3 := by omega
  have hstore (mid : List Byte) (k : ℕ) (hk : k = mid.length) (old new : Byte) (rest : List Byte) :
      storeAt (pre ++ (part.map toBase64 ++ (mid ++ old :: rest)))
        (pre.length + part.length + k) [new] =
        .ok (pre ++ (part.map toBase64 ++ (mid ++ new :: rest))) := by
    have happend := @storeAt_append (pre ++ (part.map toBase64 ++ mid)) [old] [new] rest
      (pre.length + part.length + k)
      (by rw [List.length_append, List.length_append, List.length_map, Nat.add_assoc, hk]) rfl
    simpa only [List.append_assoc, List.singleton_append] using happend
  have hfirst (new : Byte) : storeAt (pre ++ (part.map toBase64 ++ 0 :: x :: y :: post))
      (pre.length + part.length) [new] =
        .ok (pre ++ (part.map toBase64 ++ ([new] ++ x :: y :: post))) :=
    hstore [] 0 rfl 0 new (x :: y :: post)
  simp only [hstrlen, List.take_left, List.drop_left, hsize]
  rcases hcases with hmod | hmod | hmod | hmod
  · rw [if_neg (by omega), if_neg (by omega), if_pos hmod, if_neg (by omega), if_neg (by omega),
      if_pos hmod, hfirst, Exec.ok_bind]
    simp only [List.drop_succ_cons, List.drop_zero, List.append_assoc, List.cons_append,
      List.nil_append, Exec.pure_eq_ok]
  · rw [if_neg (by omega), if_neg (by omega), if_neg (by omega), if_neg (by omega),
      if_neg (by omega), if_neg (by omega)]
    simp only [List.append_assoc, List.cons_append, List.nil_append, Exec.pure_eq_ok]
  · rw [if_pos hmod, if_neg (by omega), if_pos hmod, if_neg (by omega), hfirst, Exec.ok_bind,
      hstore [0x3D] 1 rfl x, Exec.ok_bind,
      List.append_cons, hstore ([0x3D] ++ [0x3D]) 2 rfl y, Exec.ok_bind]
    simp only [List.drop_succ_cons, List.drop_zero, List.append_assoc, List.cons_append,
      List.nil_append, Exec.pure_eq_ok]
  · rw [if_neg (by omega), if_pos hmod, if_neg (by omega), if_neg (by omega), if_pos hmod,
      if_neg (by omega), hfirst, Exec.ok_bind, hstore [0x3D] 1 rfl x, Exec.ok_bind]
    simp only [List.drop_succ_cons, List.drop_zero, List.append_assoc, List.cons_append,
      List.nil_append, Exec.pure_eq_ok]

/-- What comes after the bytes that are read does not matter. -/
theorem decodeBase64_append {s rest : List Byte} (hs : NoNul s) {r : ℤ × List Byte}
    (h : JsonWebToken.decodeBase64 (s ++ 0 :: rest) = .ok r) (post : List Byte) :
    JsonWebToken.decodeBase64 (s ++ 0 :: (rest ++ post)) = .ok r := by
  have hequals (i : ℕ) : s.length ≠ 0 ∧ (s ++ 0 :: (rest ++ post)).getD (s.length - (i + 1)) 0 = 0x3D ↔
      s.length ≠ 0 ∧ (s ++ 0 :: rest).getD (s.length - (i + 1)) 0 = 0x3D := by
    apply and_congr_right
    intro hne
    rw [List.getD_append _ _ _ _ (by omega), List.getD_append _ _ _ _ (by omega)]
  have htake {n : ℕ} (hn : n ≤ s.length) :
      (s ++ 0 :: (rest ++ post)).take n = (s ++ 0 :: rest).take n := by
    rw [List.take_append_of_le_length hn, List.take_append_of_le_length hn]
  have hdrop {n : ℕ} (hn : n ≤ s.length) :
      (s ++ 0 :: (rest ++ post)).drop n = (s ++ 0 :: rest).drop n ++ post := by
    rw [List.drop_append_of_le_length hn, List.drop_append_of_le_length hn, List.append_assoc]
    rfl
  revert h
  unfold JsonWebToken.decodeBase64
  rw [strlen_append hs, strlen_append hs]
  simp only [hequals 0, hequals 1]
  have hle : 4 * (if s.length ≠ 0 ∧ (s ++ 0 :: rest).getD (s.length - (0 + 1)) 0 = 0x3D then
      s.length / 4 - 1 else s.length / 4) ≤ s.length := by
    split_ifs
    · omega
    · omega
  rw [htake hle, hdrop hle]
  generalize (if s.length ≠ 0 ∧ (s ++ 0 :: rest).getD (s.length - (0 + 1)) 0 = 0x3D then
      s.length / 4 - 1 else s.length / 4) = numFullGroups at hle
  generalize ((if s.length ≠ 0 ∧ (s ++ 0 :: rest).getD (s.length - (0 + 1)) 0 = 0x3D then 1 else 0) +
    if s.length ≠ 0 ∧ (s ++ 0 :: rest).getD (s.length - (1 + 1)) 0 = 0x3D then 1 else 0) = missing
  by_cases hmod : 4 * (s.length / 4) ≠ s.length
  · rw [if_pos hmod, if_pos hmod]
    exact id
  · rw [if_neg hmod, if_neg hmod]
    by_cases hmissing : missing = 0
    · rw [if_pos hmissing, if_pos hmissing]
      exact id
    · rw [if_neg hmissing, if_neg hmissing]
      match (s ++ 0 :: rest).drop (4 * numFullGroups) with
      | c0 :: c1 :: c2 :: _ => exact id
      | [] => exact fun h => absurd h (by simp)
      | [_] => exact fun h => absurd h (by simp)
      | [_, _] => exact fun h => absurd h (by simp)

theorem length_decodeFullGroups (s : List Byte) :
    (decodeFullGroups s).length = 3 * (s.length / 4) := by
  rw [decodeFullGroups_eq, Base64.length_decodeFullGroups, List.length_map]

/-- One or two bytes of the last group may come after those of the full ones. -/
theorem partGroup_length {full l data : List Byte} {missing : ℕ} {n : ℤ}
    (h : (if missing = 0 then return (full.length, full)
      else match l with
        | c0 :: c1 :: c2 :: _ =>
          let byte0 := Base64.firstByte (getBitsForChar c0) (getBitsForChar c1)
          let part := if missing = 1 then
            [byte0, Base64.secondByte (getBitsForChar c1) (getBitsForChar c2)] else [byte0]
          return ((full ++ part).length, full ++ part)
        | _ => throw .undefinedBehaviour : Exec (ℤ × List Byte)) = .ok (n, data)) :
    n = data.length ∧ data.length ≤ full.length + 2 := by
  by_cases hmissing : missing = 0
  · rw [if_pos hmissing] at h
    obtain ⟨rfl, rfl⟩ := Prod.mk.inj (Except.ok.inj h)
    exact ⟨rfl, Nat.le_add_right _ _⟩
  · rw [if_neg hmissing] at h
    obtain _ | ⟨c0, _ | ⟨c1, _ | ⟨c2, l⟩⟩⟩ := l
    · cases h
    · cases h
    · cases h
    · obtain ⟨rfl, rfl⟩ := Prod.mk.inj (Except.ok.inj h)
      refine ⟨rfl, ?_⟩
      rw [List.length_append]
      split_ifs
      · exact le_rfl
      · exact Nat.le_succ _

/-- Nothing is written if the length is not that of full groups. -/
theorem decodeBase64_length {s rest : List Byte} (hs : NoNul s) {n : ℤ} {data : List Byte}
    (h : JsonWebToken.decodeBase64 (s ++ 0 :: rest) = .ok (n, data)) :
    n < 0 ∧ data = [] ∨ n = data.length ∧ data.length ≤ 3 * (s.length / 4) + 2 ∧
      ((∃ t, s = t ++ [0x3D]) → data.length + 1 ≤ 3 * (s.length / 4)) := by
  revert h
  unfold JsonWebToken.decodeBase64
  rw [strlen_append hs]
  dsimp only
  have hequals : (∃ t, s = t ++ [0x3D]) → s.length ≠ 0 ∧ (s ++ 0 :: rest).getD (s.length - 1) 0 = 0x3D := by
    rintro ⟨t, rfl⟩
    rw [List.length_append, List.length_singleton, List.append_assoc, Nat.add_sub_cancel,
      List.getD_append_right _ _ _ _ le_rfl, Nat.sub_self]
    exact ⟨Nat.succ_ne_zero _, rfl⟩
  by_cases hmod : 4 * (s.length / 4) ≠ s.length
  · rw [if_pos hmod]
    intro h
    obtain ⟨rfl, rfl⟩ := Prod.mk.inj (Except.ok.inj h)
    exact Or.inl ⟨by decide, rfl⟩
  · rw [if_neg hmod]
    have hfull {m : ℕ} (hm : m ≤ s.length / 4) :
        (decodeFullGroups ((s ++ 0 :: rest).take (4 * m))).length = 3 * m := by
      rw [length_decodeFullGroups, List.length_take, List.length_append]
      omega
    by_cases hlast : s.length ≠ 0 ∧ (s ++ 0 :: rest).getD (s.length - 1) 0 = 0x3D
    · have hpos := hlast.1
      rw [if_pos hlast, if_pos hlast]
      intro h
      obtain ⟨hn, hdata⟩ := partGroup_length h
      rw [hfull (Nat.sub_le _ _)] at hdata
      exact Or.inr ⟨hn, by omega, fun _ => by omega⟩
    · rw [if_neg hlast, if_neg hlast]
      intro h
      obtain ⟨hn, hdata⟩ := partGroup_length h
      rw [hfull le_rfl] at hdata
      exact Or.inr ⟨hn, hdata, fun hends => absurd (hequals hends) hlast⟩

structure Shows (s : State) (parts : List (Pointer × List Byte)) : Prop where
  dparts_eq : ∃ k, s.dparts = parts.map Prod.fst ++ List.replicate k .null
  pLen_eq : ∃ k, s.pLen = parts.map (fun p => (p.2.length : ℤ)) ++ List.replicate k 0
  bytesAt_eq : ∀ p ∈ parts, s.bytesAt p.1 p.2.length = p.2

theorem getD_append_replicate {α : Type} (xs : List α) (k : ℕ) (x : α) (i : ℕ) :
    (xs ++ List.replicate k x).getD i x = xs.getD i x := by
  rcases Nat.lt_or_ge i xs.length with hlt | hge
  · rw [List.getD_append _ _ _ _ hlt]
  · rw [List.getD_append_right _ _ _ _ hge, List.getD_eq_default _ _ hge]
    simp

theorem Shows.part_eq {s : State} {parts : List (Pointer × List Byte)} (h : Shows s parts) (i : ℕ) :
    s.part i = (parts.map Prod.snd).getD i [] := by
  obtain ⟨k, hdparts⟩ := h.dparts_eq
  obtain ⟨l, hpLen⟩ := h.pLen_eq
  unfold State.part
  rw [hdparts, hpLen, getD_append_replicate, getD_append_replicate]
  rcases Nat.lt_or_ge i parts.length with hlt | hge
  · rw [List.getD_eq_getElem _ _ (by rwa [List.length_map]),
      List.getD_eq_getElem _ _ (by rwa [List.length_map]),
      List.getD_eq_getElem _ _ (by rwa [List.length_map]), List.getElem_map, List.getElem_map,
      List.getElem_map, Int.toNat_natCast]
    exact h.bytesAt_eq _ (List.getElem_mem hlt)
  · rw [List.getD_eq_default _ _ (by rwa [List.length_map]),
      List.getD_eq_default _ _ (by rwa [List.length_map]),
      List.getD_eq_default _ _ (by rwa [List.length_map])]
    rfl

theorem length_base64urlToBase64 {part : List Byte} (hnoNul : NoNul part) (x y : Byte) :
    (JsonWebToken.base64urlToBase64 (part ++ [0, x, y])).2.length = (part ++ [0, x, y]).length := by
  have hstrlen : strlen (part ++ [0, x, y]) = part.length := strlen_append hnoNul [x, y]
  have hsize : (part ++ [0, x, y]).length = part.length + 3 := by rw [List.length_append]; rfl
  unfold JsonWebToken.base64urlToBase64
  simp only [hstrlen, List.take_left, List.drop_left, hsize]
  split_ifs
  all_goals
    simp only [List.length_append, List.length_map, List.length_drop, List.length_cons,
      List.length_nil]

theorem decoded_fits {part rest : List Byte} (hnoNul : NoNul part) {n : ℤ} {data : List Byte}
    (h : JsonWebToken.decodeBase64 (padded part ++ 0 :: rest) = .ok (n, data)) :
    n < 0 ∧ data = [] ∨ n = data.length ∧ data.length < part.length + 3 := by
  have hpadded : (padded part).length = part.length + (4 - part.length % 4) % 4 := by
    unfold padded
    rw [List.length_append, List.length_map, List.length_replicate]
  rcases decodeBase64_length (noNul_padded hnoNul) h with herror | ⟨hn, hbound, hends⟩
  · exact Or.inl herror
  · refine Or.inr ⟨hn, ?_⟩
    by_cases hmod : part.length % 4 = 0
    · omega
    · have hlast := hends ⟨part.map toBase64 ++
        List.replicate ((4 - part.length % 4) % 4 - 1) 0x3D, by
          unfold padded
          rw [List.append_assoc, ← List.replicate_succ', Nat.sub_add_cancel (by omega)]⟩
      omega

/-- A part as the two steps of its decoding leave it. -/
structure Decoding (buf : List Byte) (piece : ℕ × List Byte) (mem : List Byte) (rc : ℤ) : Prop where
  url : JsonWebToken.base64urlToBase64 piece.2 = (rc, mem)
  length_eq : mem.length = piece.2.length
  memory_url : base64urlToBase64 buf piece.1 piece.2.length = .ok (rc, splice buf piece.1 mem)
  decoded : 0 ≤ rc → ∃ n data, JsonWebToken.decodeBase64 mem = .ok (n, data) ∧
    (n < 0 ∧ data = [] ∨ n = data.length ∧ data.length < mem.length) ∧
    ∀ decoded result, decodeBase64 (splice buf piece.1 mem) piece.1 decoded result = (do
      let decoded ← storeAt decoded result data
      return (n, decoded))

theorem exists_decoding {buf : List Byte} {piece : ℕ × List Byte} (hholds : Holds buf piece)
    {part : List Byte} (hnoNul : NoNul part) (hroom : HasRoom part piece.2) :
    ∃ mem rc, Decoding buf piece mem rc := by
  obtain ⟨x, y, hpiece⟩ := hroom
  obtain ⟨pre, post, hbuf, hpre⟩ := Slices.eq_append_slice hholds.within
  rw [hholds.slice_eq, hpiece] at hbuf
  have hlength : piece.2.length = part.length + 3 := by rw [hpiece, List.length_append]; rfl
  have hsize : (JsonWebToken.base64urlToBase64 piece.2).2.length = piece.2.length := by
    rw [hpiece]
    exact length_base64urlToBase64 hnoNul x y
  have hsplice : splice buf piece.1 (JsonWebToken.base64urlToBase64 piece.2).2 =
      pre ++ ((JsonWebToken.base64urlToBase64 piece.2).2 ++ post) := by
    rw [hbuf, Slices.splice_append hpre.symm (hsize.trans (congrArg List.length hpiece))]
  refine ⟨(JsonWebToken.base64urlToBase64 piece.2).2, (JsonWebToken.base64urlToBase64 piece.2).1,
    rfl, hsize, ?_, ?_⟩
  · rw [hsplice, hbuf, hpiece, ← hpre]
    exact memory_base64urlToBase64 pre hnoNul x y post
  · intro hrc
    have hmod : part.length % 4 ≠ 1 := by
      intro hmod
      rw [hpiece] at hrc
      exact absurd hrc (not_le.mpr (base64urlToBase64_error hnoNul hmod x y))
    obtain ⟨rc, -, rest, hurl, hends⟩ := base64urlToBase64_eq hnoNul hmod x y
    have hpadded := noNul_padded hnoNul
    obtain ⟨n, data, hdata⟩ := decodeBase64_ok hpadded hends
    rw [hsize, hsplice, hpiece, hurl]
    refine ⟨n, data, hdata, ?_, fun decoded result => ?_⟩
    · rw [List.length_append]
      exact decoded_fits hnoNul hdata
    · have happend := decodeBase64_append hpadded hdata post
      unfold decodeBase64
      rw [List.append_assoc, List.cons_append, stringAt_append hpadded hpre.symm, Exec.ok_bind,
        ← hpre, List.drop_left, happend, Exec.ok_bind]

theorem Shows.of_pieces {s : State} {done : List (ℕ × List Byte)} (pieces : List (ℕ × List Byte))
    {k l : ℕ}
    (hdparts : s.dparts = done.map (.decoded ·.1) ++ (textPointers pieces ++ List.replicate k .null))
    (hpLen : s.pLen = memoryLengths done ++ (memoryLengths pieces ++ List.replicate l 0))
    (hdone : ∀ p ∈ done, Holds s.decodedText p) (hpieces : ∀ p ∈ pieces, Holds s.base64Buf p) :
    Shows s (done.map (fun p => (.decoded p.1, p.2)) ++ pieces.map (fun p => (.text p.1, p.2))) where
  dparts_eq := by
    refine ⟨k, ?_⟩
    rw [hdparts, List.map_append, List.map_map, List.map_map, List.append_assoc]
    rfl
  pLen_eq := by
    refine ⟨l, ?_⟩
    rw [hpLen, List.map_append, List.map_map, List.map_map, List.append_assoc]
    rfl
  bytesAt_eq := by
    rw [List.forall_mem_append, List.forall_mem_map, List.forall_mem_map]
    exact ⟨fun p hp => (hdone p hp).slice_eq, fun p hp => (hpieces p hp).slice_eq⟩

theorem map_snd_pieces (done pieces : List (ℕ × List Byte)) :
    (done.map (fun p => (Pointer.decoded p.1, p.2)) ++
      pieces.map (fun p => (Pointer.text p.1, p.2))).map Prod.snd =
      done.map Prod.snd ++ pieces.map Prod.snd := by
  rw [List.map_append, List.map_map, List.map_map]
  rfl

theorem memory_decodeParts {pieces : List (ℕ × List Byte)} (done : List (ℕ × List Byte))
    {buf D R : List Byte} (k : ℕ)
    (hroom : ∀ p ∈ pieces, ∃ part, NoNul part ∧ HasRoom part p.2)
    (hapart : pieces.Pairwise fun p q => p.1 + p.2.length ≤ q.1)
    (hholds : ∀ p ∈ pieces, Holds buf p) (hdone : ∀ p ∈ done, Holds D p)
    (hR : (pieces.map fun p => p.2.length).sum ≤ R.length) :
    ∃ n s parts, decodeParts pieces.length
        ⟨buf, D ++ R, done.map (.decoded ·.1) ++ (textPointers pieces ++ List.replicate k .null),
          memoryLengths done ++ (memoryLengths pieces ++ List.replicate k 0)⟩
        done.length D.length = .ok (n, s) ∧
      JsonWebToken.decodeParts (done.map Prod.snd) (pieces.map Prod.snd) =
        .ok (n, parts.map Prod.snd) ∧ Shows s parts := by
  induction pieces generalizing done buf D R with
  | nil =>
    refine ⟨done.length, _, done.map (fun p => (.decoded p.1, p.2)) ++ [], rfl, ?_, ?_⟩
    · rw [List.append_nil, List.map_map]
      rw [List.map_nil, JsonWebToken.decodeParts, List.length_map]
      rfl
    · apply Shows.of_pieces [] rfl rfl
      · exact fun p hp => (hdone p hp).append R
      · exact List.forall_mem_nil _
  | cons p pieces ih =>
    obtain ⟨part, hnoNul, hpart⟩ := hroom p List.mem_cons_self
    have hheld := hholds p List.mem_cons_self
    obtain ⟨mem, rc, hdecoding⟩ := exists_decoding hheld hnoNul hpart
    rw [List.pairwise_cons] at hapart
    have hwithin : p.1 + mem.length ≤ buf.length := by
      rw [hdecoding.length_eq]
      exact hheld.within
    have hheld' : ∀ q ∈ pieces, Holds (splice buf p.1 mem) q := by
      intro q hq
      apply (hholds q (List.mem_cons_of_mem _ hq)).splice_after hwithin
      rw [hdecoding.length_eq]
      exact hapart.1 q hq
    have hself : ∀ q ∈ (p.1, mem) :: pieces, Holds (splice buf p.1 mem) q := by
      rw [List.forall_mem_cons]
      exact ⟨Holds.splice_same hwithin, hheld'⟩
    have hlengths : memoryLengths (p :: pieces) = memoryLengths ((p.1, mem) :: pieces) := by
      unfold memoryLengths
      rw [List.map_cons, List.map_cons, hdecoding.length_eq]
    -- a part that cannot be decoded
    have hshows : Shows ⟨splice buf p.1 mem, D ++ R,
        done.map (.decoded ·.1) ++ (textPointers (p :: pieces) ++ List.replicate k .null),
        memoryLengths done ++ (memoryLengths (p :: pieces) ++ List.replicate k 0)⟩
        (done.map (fun p => (.decoded p.1, p.2)) ++
          ((p.1, mem) :: pieces).map (fun p => (.text p.1, p.2))) := by
      apply Shows.of_pieces ((p.1, mem) :: pieces)
      · rfl
      · rw [hlengths]
      · exact fun q hq => (hdone q hq).append R
      · exact hself
    have hpart : getAt (done.map (.decoded ·.1) ++ (textPointers (p :: pieces) ++
        List.replicate k .null)) done.length = .ok (.text p.1) :=
      getAt_append _ (List.length_map _).symm
    have hlength : getAt (memoryLengths done ++ (memoryLengths (p :: pieces) ++
        List.replicate k 0)) done.length = .ok (p.2.length : ℤ) :=
      getAt_append _ (List.length_map _).symm
    rw [List.length_cons, decodeParts, List.map_cons, JsonWebToken.decodeParts, hdecoding.url]
    simp only [hpart, hlength, Exec.ok_bind, textPlace, Exec.pure_eq_ok, hdecoding.memory_url]
    by_cases hrc : rc < 0
    · rw [if_pos hrc, if_pos hrc]
      refine ⟨_, _, _, rfl, ?_, hshows⟩
      rw [map_snd_pieces]
      rfl
    · obtain ⟨n, data, hdata, hsize, hmemory⟩ := hdecoding.decoded (not_lt.mp hrc)
      rw [if_neg hrc, if_neg hrc, hdata, hmemory, Exec.ok_bind]
      dsimp only
      rcases hsize with ⟨hn, hempty⟩ | ⟨hn, hsize⟩
      · have hstore : storeAt (D ++ R) D.length data = .ok (D ++ R) := by
          rw [hempty]
          exact storeAt_append rfl (s := []) rfl
        rw [hstore, if_pos hn, Exec.ok_bind, Exec.pure_eq_ok, Exec.ok_bind]
        dsimp only
        rw [if_pos hn]
        refine ⟨_, _, _, rfl, ?_, hshows⟩
        rw [map_snd_pieces]
        rfl
      · rw [hdecoding.length_eq] at hsize
        rw [List.map_cons, List.sum_cons] at hR
        have hsplit : ∃ R₁ r R₂, R = R₁ ++ r :: R₂ ∧ R₁.length = data.length := by
          have hlt : data.length < R.length := by omega
          refine ⟨R.take data.length, R[data.length], R.drop (data.length + 1), ?_, ?_⟩
          · rw [List.getElem_cons_drop, List.take_append_drop]
          · rw [List.length_take]
            omega
        obtain ⟨R₁, r, R₂, rfl, hR₁⟩ := hsplit
        have hstore : storeAt (D ++ (R₁ ++ r :: R₂)) D.length data = .ok (D ++ (data ++ r :: R₂)) :=
          storeAt_append rfl hR₁.symm
        have hend : storeAt (D ++ (data ++ r :: R₂)) (D.length + data.length) [0] =
            .ok ((D ++ (data ++ [0])) ++ R₂) := by
          have happend := @storeAt_append (D ++ data) [r] [0] R₂ _ List.length_append.symm rfl
          simpa only [List.append_assoc, List.singleton_append] using happend
        have hsetPart : setAt (done.map (.decoded ·.1) ++ (textPointers (p :: pieces) ++
            List.replicate k .null)) done.length (.decoded D.length) =
            .ok (done.map (.decoded ·.1) ++ (.decoded D.length ::
              (textPointers pieces ++ List.replicate k .null))) :=
          setAt_append _ _ (List.length_map _).symm
        have hsetLength : setAt (memoryLengths done ++ (memoryLengths (p :: pieces) ++
            List.replicate k 0)) done.length (data.length : ℤ) =
            .ok (memoryLengths done ++ ((data.length : ℤ) ::
              (memoryLengths pieces ++ List.replicate k 0))) :=
          setAt_append _ _ (List.length_map _).symm
        have hD : (D ++ (data ++ [(0 : Byte)])).length = D.length + data.length + 1 := by
          rw [List.length_append, List.length_append, List.length_singleton, Nat.add_assoc]
        obtain ⟨m, s, parts, hrun, hvalue, hshows⟩ := ih (done ++ [(D.length, data)])
          (D := D ++ (data ++ [0])) (R := R₂)
          (fun q hq => hroom q (List.mem_cons_of_mem _ hq)) hapart.2 hheld' (by
            rw [List.forall_mem_append]
            refine ⟨fun q hq => (hdone q hq).append _, ?_⟩
            rw [List.forall_mem_singleton]
            refine ⟨?_, Slices.slice_append rfl rfl⟩
            rw [hD]
            exact Nat.le_succ _) (by
            rw [List.length_append, List.length_cons] at hR
            omega)
        subst hn
        rw [hstore, if_neg (by omega), Exec.ok_bind, Exec.pure_eq_ok, Exec.ok_bind]
        dsimp only
        rw [if_neg (by omega), hsetPart, Exec.ok_bind, hsetLength, Exec.ok_bind, Int.toNat_natCast,
          hend, Exec.ok_bind]
        refine ⟨m, s, parts, ?_, ?_, hshows⟩
        · rw [← hrun, hD, List.length_append, List.length_singleton]
          unfold memoryLengths
          simp only [List.map_append, List.append_assoc]
          rfl
        · rw [← hvalue, List.map_append]
          rfl

/-! The parts of a text -/

theorem length_terminated (inPart : Bool) (s : List Byte) :
    (terminated inPart s).length = s.length + (BASE64URL_EXTRA_BYTES_TOTAL + 1) := by
  induction s generalizing inPart with
  | nil => rw [terminated, List.length_replicate, List.length_nil, Nat.zero_add]
  | cons c s ih =>
    rw [terminated]
    split_ifs
    all_goals
      rw [List.length_cons, ih, List.length_cons]
      omega

theorem length_partText (s : List Byte) : (partText s).length ≤ s.length :=
  (List.takeWhile_sublist _).length_le

theorem length_rawPart (s : List Byte) : (rawPart s).length = (partText s).length + 1 := by
  have hle := length_partText s
  unfold rawPart
  rw [List.length_take, length_terminated]
  omega

theorem length_movedPart (s : List Byte) :
    (movedPart s).length = (partText s).length + 1 + BASE64URL_EXTRA_BYTES := by
  have hle := length_partText s
  unfold movedPart BASE64URL_EXTRA_BYTES
  rw [List.length_take, length_terminated]
  unfold BASE64URL_EXTRA_BYTES_TOTAL BASE64URL_EXTRA_BYTES MAX_NPARTS
  omega

theorem spans_ne_nil {text : List Byte} (h : ∃ c ∈ text, c ≠ ASCII_PERIOD) (calls place : ℕ) :
    spans (calls + 1) place text ≠ [] := by
  obtain ⟨dots, part, rest, hnext⟩ := exists_next text
  by_cases hne : part = []
  · obtain ⟨c, hc, hperiod⟩ := h
    exact absurd (strtok_r_eq_none (hnext.strtok_r_none hne) c hc) hperiod
  · rw [hnext.spans_some hne]
    exact List.cons_ne_nil _ _

/-- The parts where they are found, each with the bytes that are moved with it. -/
def pieces (found : List (ℕ × List Byte)) : List (ℕ × List Byte) :=
  found.map fun p => (p.1, movedPart p.2)

theorem textPointers_pieces (found : List (ℕ × List Byte)) :
    textPointers (pieces found) = textPointers found := by
  unfold textPointers pieces
  rw [List.map_map]
  rfl

theorem shortLengths_pieces (found : List (ℕ × List Byte)) :
    shortLengths (pieces found) = rawLengths found := by
  unfold shortLengths rawLengths pieces
  rw [List.map_map]
  apply List.map_congr_left
  intro p _
  show ((movedPart p.2).length : ℤ) - BASE64URL_EXTRA_BYTES = _
  rw [length_movedPart]
  omega

theorem map_snd_movedPieces (pieces : List (ℕ × List Byte)) :
    (movedPieces pieces).map Prod.snd = pieces.map Prod.snd := by
  unfold movedPieces
  apply List.ext_getElem
  · rw [List.length_map, List.length_mapIdx, List.length_map]
  · intro i _ _
    rw [List.getElem_map, List.getElem_mapIdx, List.getElem_map]

theorem movedPieces_apart {pieces : List (ℕ × List Byte)} (h : Apart pieces) :
    (movedPieces pieces).Pairwise fun p q => p.1 + p.2.length ≤ q.1 := by
  unfold movedPieces
  rw [List.pairwise_iff_getElem]
  intro i j hi hj hlt
  rw [List.length_mapIdx] at hi hj
  have hapart := List.pairwise_iff_getElem.mp h i j hi hj hlt
  rw [List.getElem_mapIdx, List.getElem_mapIdx]
  dsimp only
  unfold BASE64URL_EXTRA_BYTES at *
  omega

theorem apart_pieces {found : List (ℕ × List Byte)}
    (h : found.Pairwise fun p q => p.1 + (partText p.2).length + 1 ≤ q.1) : Apart (pieces found) := by
  unfold Apart pieces
  rw [List.pairwise_map]
  refine h.imp fun {p q} hpq => ?_
  rw [length_movedPart]
  omega

theorem findParts_copy {text : List Byte} (hnoNul : NoNul text) : ∃ buf extra,
    findParts MAX_NPARTS (.copy text) 0 0 =
      .ok (⟨buf, List.replicate (text.length + BASE64URL_EXTRA_BYTES_TOTAL + 1) 0,
          textPointers (spans MAX_NPARTS 0 text) ++
            List.replicate (MAX_NPARTS - (spans MAX_NPARTS 0 text).length) .null,
          rawLengths (spans MAX_NPARTS 0 text) ++
            List.replicate (MAX_NPARTS - (spans MAX_NPARTS 0 text).length) 0⟩,
        extra, (spans MAX_NPARTS 0 text).length) ∧
      Found MAX_NPARTS text [] buf extra := by
  obtain ⟨buf, extra, hrun, hfound⟩ := memory_findParts MAX_NPARTS hnoNul []
    (List.replicate (text.length + BASE64URL_EXTRA_BYTES_TOTAL + 1) 0) [] [] rfl rfl
  refine ⟨buf, extra, ?_, hfound⟩
  simp only [List.nil_append, List.length_nil, Nat.zero_add] at hrun
  exact hrun

theorem extractParts_copy_extra {text : List Byte} (hnoNul : NoNul text)
    (hextra : MAX_NPARTS < (spans (MAX_NPARTS + 1) 0 text).length) :
    ∃ s, extractParts (.copy text) = .ok (RC_JWT_EXTRA_PART, s) ∧
      Shows s ((spans MAX_NPARTS 0 text).map fun p => (.text p.1, rawPart p.2)) := by
  obtain ⟨buf, extra, hrun, hfound⟩ := findParts_copy hnoNul
  have hsome : extra.isSome = true := hfound.extra_iff.mpr hextra
  unfold extractParts
  rw [hrun, Exec.ok_bind]
  dsimp only
  rw [if_pos hsome]
  refine ⟨_, rfl, ⟨MAX_NPARTS - (spans MAX_NPARTS 0 text).length, ?_⟩,
    ⟨MAX_NPARTS - (spans MAX_NPARTS 0 text).length, ?_⟩, ?_⟩
  · rw [List.map_map]
    rfl
  · show rawLengths _ ++ _ = _
    rw [List.map_map]
    congr 1
    apply List.map_congr_left
    intro p _
    show _ = ((rawPart p.2).length : ℤ)
    rw [length_rawPart]
  · rw [List.forall_mem_map]
    intro p hp
    show slice buf p.1 (rawPart p.2).length = rawPart p.2
    rw [length_rawPart]
    exact hfound.raw p hp

/-- As many parts as there may be, with what is moved. -/
theorem holds_pieces {text buf : List Byte} (hbuf : buf = terminated false text)
    {p : ℕ × List Byte} (hp : p ∈ pieces (spans MAX_NPARTS 0 text)) : Holds buf p := by
  obtain ⟨q, hq, rfl⟩ := List.mem_map.mp hp
  obtain ⟨k, hk, hdrop⟩ := drop_terminated_spans _ _ _ q hq
  rw [Nat.zero_add] at hk
  have hwithin := ((spans_apart MAX_NPARTS 0 text).2 q hq).2
  constructor
  · dsimp only
    rw [hbuf, length_movedPart, length_terminated]
    unfold BASE64URL_EXTRA_BYTES_TOTAL BASE64URL_EXTRA_BYTES MAX_NPARTS
    omega
  · dsimp only
    unfold slice
    rw [length_movedPart, hbuf, hk, hdrop]
    rfl

theorem sum_moved (found : List (ℕ × List Byte)) :
    (found.map (List.length ∘ (movedPart ∘ Prod.snd))).sum =
      (found.map fun p => (partText p.2).length + 1).sum + found.length * BASE64URL_EXTRA_BYTES := by
  induction found with
  | nil => rfl
  | cons p found ih =>
    rw [List.map_cons, List.sum_cons, ih, List.map_cons, List.sum_cons, List.length_cons]
    show (movedPart p.2).length + _ = _
    rw [length_movedPart, Nat.add_mul]
    omega

theorem extractParts_copy {text : List Byte} (hnoNul : NoNul text)
    (hpart : ∃ c ∈ text, c ≠ ASCII_PERIOD)
    (hextra : ¬MAX_NPARTS < (spans (MAX_NPARTS + 1) 0 text).length) :
    ∃ n s parts, extractParts (.copy text) = .ok (n, s) ∧
      JsonWebToken.decodeParts [] ((JsonWebToken.findParts MAX_NPARTS text).map movedPart) =
        .ok (n, parts) ∧ ∀ i, s.part i = parts.getD i [] := by
  obtain ⟨buf, extra, hrun, hfound⟩ := findParts_copy hnoNul
  have hnone : extra = none := by
    rw [← Option.not_isSome_iff_eq_none, hfound.extra_iff]
    exact hextra
  have hbuf := hfound.buf_eq hnone
  have hlength := length_terminated false text
  have hcount : (spans MAX_NPARTS 0 text).length ≤ MAX_NPARTS := by
    rw [← take_spans, List.length_take]
    exact Nat.min_le_left _ _
  have hapart := apart_pieces (spans_apart MAX_NPARTS 0 text).1
  have hheld : ∀ q ∈ pieces (spans MAX_NPARTS 0 text), Holds buf q := fun q hq =>
    holds_pieces hbuf hq
  have hfits : ∀ q ∈ pieces (spans MAX_NPARTS 0 text), q.1 + q.2.length ≤ text.length + 3 := by
    intro q hq
    obtain ⟨r, hr, rfl⟩ := List.mem_map.mp hq
    have hwithin := ((spans_apart MAX_NPARTS 0 text).2 r hr).2
    dsimp only
    rw [length_movedPart]
    unfold BASE64URL_EXTRA_BYTES
    omega
  have hpieces : (pieces (spans MAX_NPARTS 0 text)).length = (spans MAX_NPARTS 0 text).length :=
    List.length_map _
  rcases List.eq_nil_or_concat' (pieces (spans MAX_NPARTS 0 text)) with hnil | ⟨init, p, hconcat⟩
  · exact absurd (List.map_eq_nil_iff.mp hnil) (spans_ne_nil hpart 2 0)
  · rw [hconcat, List.length_append, List.length_singleton] at hpieces
    rw [hconcat] at hapart hheld hfits
    obtain ⟨buf', hmove, hsame, hmoved⟩ := @memory_moveParts init.length init [] p buf
      (List.replicate (text.length + BASE64URL_EXTRA_BYTES_TOTAL + 1) 0)
      (List.replicate (MAX_NPARTS - (spans MAX_NPARTS 0 text).length) .null)
      (List.replicate (MAX_NPARTS - (spans MAX_NPARTS 0 text).length) 0) rfl hapart hheld buf.length
      (by
        have hp := hfits p (by simp)
        rw [hbuf, hlength]
        unfold BASE64URL_EXTRA_BYTES_TOTAL BASE64URL_EXTRA_BYTES MAX_NPARTS at *
        omega)
      le_rfl (List.forall_mem_nil _)
    rw [List.append_nil] at hmove hmoved
    have haddRoom : addRoom (rawLengths (spans MAX_NPARTS 0 text) ++
        List.replicate (MAX_NPARTS - (spans MAX_NPARTS 0 text).length) 0)
        ((spans MAX_NPARTS 0 text).length - 1) =
        .ok (shortLengths init ++ (p.2.length : ℤ) ::
          List.replicate (MAX_NPARTS - (spans MAX_NPARTS 0 text).length) 0) := by
      have hindex : (spans MAX_NPARTS 0 text).length - 1 = (shortLengths init).length := by
        unfold shortLengths
        rw [List.length_map]
        omega
      have hlengths : rawLengths (spans MAX_NPARTS 0 text) =
          shortLengths init ++ [(p.2.length - BASE64URL_EXTRA_BYTES : ℤ)] := by
        rw [← shortLengths_pieces, hconcat]
        unfold shortLengths
        rw [List.map_append]
        rfl
      unfold addRoom
      rw [hlengths, List.append_assoc, List.singleton_append, getAt_append _ hindex, Exec.ok_bind,
        setAt_append _ _ hindex, Int.sub_add_cancel]
    have hturns : ((spans MAX_NPARTS 0 text).length + 4294967295) % 4294967296 = init.length := by
      unfold MAX_NPARTS at *
      omega
    have hpointers : textPointers (spans MAX_NPARTS 0 text) =
        textPointers init ++ [.text p.1] := by
      rw [← textPointers_pieces, hconcat]
      unfold textPointers
      rw [List.map_append]
      rfl
    have hvalues : (movedPieces (init ++ [p])).map Prod.snd =
        (JsonWebToken.findParts MAX_NPARTS text).map movedPart := by
      rw [map_snd_movedPieces, ← hconcat, ← map_snd_spans _ 0]
      unfold pieces
      rw [List.map_map, List.map_map]
      rfl
    have hroom : ∀ q ∈ movedPieces (init ++ [p]), ∃ part, NoNul part ∧ HasRoom part q.2 := by
      intro q hq
      have hmem := List.mem_map_of_mem (f := Prod.snd) hq
      rw [hvalues] at hmem
      obtain ⟨t, ht, hq2⟩ := List.mem_map.mp hmem
      rw [← hq2]
      exact findParts_room MAX_NPARTS hnoNul t ht
    have hsum : ((movedPieces (init ++ [p])).map fun q => q.2.length).sum ≤
        (List.replicate (text.length + BASE64URL_EXTRA_BYTES_TOTAL + 1) (0 : Byte)).length := by
      have hlengths := congrArg (List.map List.length) hvalues
      rw [← map_snd_spans _ 0, List.map_map, List.map_map, List.map_map] at hlengths
      have hparts := sum_spans MAX_NPARTS 0 text
      have hmove := sum_moved (spans MAX_NPARTS 0 text)
      rw [List.length_replicate]
      refine (congrArg List.sum hlengths).trans_le ?_
      refine hmove.trans_le ?_
      unfold BASE64URL_EXTRA_BYTES_TOTAL BASE64URL_EXTRA_BYTES MAX_NPARTS at *
      omega
    obtain ⟨n, s, parts, hdecode, hvalue, hshows⟩ := @memory_decodeParts
      (movedPieces (init ++ [p])) [] buf' [] _ (MAX_NPARTS - (spans MAX_NPARTS 0 text).length) hroom
      (movedPieces_apart hapart) hmoved (List.forall_mem_nil _) hsum
    refine ⟨n, s, parts.map Prod.snd, ?_, ?_, hshows.part_eq⟩
    · have hcountMoved : (movedPieces (init ++ [p])).length = (spans MAX_NPARTS 0 text).length := by
        unfold movedPieces
        rw [List.length_mapIdx, List.length_append, List.length_singleton, hpieces]
      unfold extractParts
      rw [hrun, Exec.ok_bind]
      dsimp only
      rw [hnone, if_neg (by simp), if_pos (by omega), haddRoom, Exec.ok_bind, hturns, hpointers,
        List.append_assoc, List.singleton_append]
      erw [hmove]
      rw [hcountMoved] at hdecode
      rw [Exec.ok_bind]
      exact hdecode
    · rw [← hvalues]
      exact hvalue

theorem memory_extractParts {text : List Byte} (hnoNul : NoNul text)
    (hpart : ∃ c ∈ text, c ≠ ASCII_PERIOD) :
    ∃ n s parts, extractParts (.copy text) = .ok (n, s) ∧
      JsonWebToken.extractParts text = .ok (n, parts) ∧ ∀ i, s.part i = parts.getD i [] := by
  have hvalue := map_snd_spans (MAX_NPARTS + 1) 0 text
  by_cases hextra : MAX_NPARTS < (spans (MAX_NPARTS + 1) 0 text).length
  · obtain ⟨s, hrun, hshows⟩ := extractParts_copy_extra hnoNul hextra
    refine ⟨_, s, _, hrun, ?_, hshows.part_eq⟩
    unfold JsonWebToken.extractParts
    dsimp only
    rw [← hvalue, List.length_map, if_pos hextra, ← List.map_take, take_spans, List.map_map,
      List.map_map]
    rfl
  · obtain ⟨n, s, parts, hrun, hdecode, hshown⟩ := extractParts_copy hnoNul hpart hextra
    refine ⟨n, s, parts, hrun, ?_, hshown⟩
    have hne := spans_ne_nil hpart MAX_NPARTS 0
    have hsame : spans (MAX_NPARTS + 1) 0 text = spans MAX_NPARTS 0 text :=
      (List.take_of_length_le (not_lt.mp hextra)).symm.trans (take_spans _ _ _)
    unfold JsonWebToken.extractParts
    dsimp only
    rw [← hvalue, List.length_map, if_neg hextra, if_neg (mt List.map_eq_nil_iff.mp hne), hsame,
      map_snd_spans]
    exact hdecode

/-- The number of the last part is `UINT_MAX` if there is none. -/
theorem extractParts_copy_nothing {text : List Byte} (hnoNul : NoNul text)
    (h : ∀ c ∈ text, c = ASCII_PERIOD) :
    extractParts (.copy text) = .error .undefinedBehaviour := by
  obtain ⟨dots, part, rest, hnext⟩ := exists_next text
  have hnil : part = [] := by
    rw [List.eq_nil_iff_forall_not_mem]
    intro c hc
    apply hnext.noPeriod c hc
    apply h
    rw [hnext.eq_append]
    simp [hc]
  obtain ⟨buf, extra, hrun, hfound⟩ := findParts_copy hnoNul
  have hnone : extra = none := by
    rw [← Option.not_isSome_iff_eq_none, hfound.extra_iff, hnext.spans_none hnil]
    exact Nat.not_lt_zero _
  rw [hnext.spans_none hnil] at hrun
  unfold extractParts
  rw [hrun, Exec.ok_bind]
  dsimp only
  rw [hnone, if_neg (by simp), if_neg (by simp), Exec.pure_eq_ok, Exec.ok_bind]
  show moveParts (4294967294 + 1) _ >>= _ = _
  apply Exec.bind_eq_error
  rw [moveParts]
  apply Exec.bind_eq_error
  unfold getAt
  rw [List.getElem?_eq_none]
  · rfl
  · show (List.replicate MAX_NPARTS Pointer.null).length ≤ _
    rw [List.length_replicate]
    decide

/-! A token -/

/-- The accesses of the splitting are within the buffers and arrays, and the whole run ends. -/
structure InBounds (base64Text : CString) : Prop where
  split_ok (ebcdic : Bool) : ∃ r, split base64Text ebcdic = .ok r
  ends (convert : List Byte → Option (List Byte)) (ebcdic : Bool) (self : JwtContext) :
    ∃ n, ∀ fuel ≥ n, (jwtParse convert fuel base64Text ebcdic self).Ends

/-- The length and the size of the copy are an `int` each, and there is a part. -/
structure Splits (base64Text : CString) : Prop where
  length_nonneg : 0 ≤ base64Len base64Text
  size_lt : base64Len base64Text + BASE64URL_EXTRA_BYTES_TOTAL + 1 < 2 ^ 31
  part : ∃ c ∈ base64Text.bytes.take (base64Len base64Text).toNat, c ≠ ASCII_PERIOD

theorem split_ascii {base64Text : CString}
    (hsize : base64Len base64Text + BASE64URL_EXTRA_BYTES_TOTAL + 1 < 2 ^ 31)
    (hlength : 0 ≤ base64Len base64Text) :
    split base64Text false = (do
      let r ← extractParts (.copy (base64Text.bytes.take (base64Len base64Text).toNat))
      return some (r.1, r.2)) := by
  unfold split copyToken
  rw [if_neg (not_le.mpr hsize), if_neg (not_lt.mpr hlength)]
  rfl

theorem Splits.split_ok {base64Text : CString} (h : Splits base64Text) (ebcdic : Bool) :
    ∃ r, split base64Text ebcdic = .ok r := by
  cases ebcdic with
  | true =>
    refine ⟨none, ?_⟩
    unfold split
    rw [if_neg (not_le.mpr h.size_lt)]
    rfl
  | false =>
    obtain ⟨n, s, parts, hrun, -⟩ := memory_extractParts (base64Text.noNul.take _) h.part
    rw [split_ascii h.size_lt h.length_nonneg, hrun]
    exact ⟨_, rfl⟩

theorem splits_of_split {base64Text : CString} {r : Option (ℤ × State)}
    (h : split base64Text false = .ok r) : Splits base64Text := by
  by_cases hsize : 2 ^ 31 ≤ base64Len base64Text + BASE64URL_EXTRA_BYTES_TOTAL + 1
  · unfold split at h
    rw [if_pos hsize] at h
    cases h
  · by_cases hlength : base64Len base64Text < 0
    · unfold split copyToken at h
      rw [if_neg hsize, if_pos hlength] at h
      cases h
    · refine ⟨not_lt.mp hlength, not_le.mp hsize, ?_⟩
      by_contra hnothing
      push Not at hnothing
      rw [split_ascii (not_le.mp hsize) (not_lt.mp hlength),
        extractParts_copy_nothing (base64Text.noNul.take _) hnothing] at h
      exact absurd h (by simp)

theorem ends_jsonParseUnterminatedUtf8String (convert : List Byte → Option (List Byte))
    (jsonText : List Byte) :
    ∃ n, ∀ fuel ≥ n, (jsonParseUnterminatedUtf8String convert fuel jsonText).Ends := by
  unfold jsonParseUnterminatedUtf8String
  split_ifs
  · exact ⟨0, fun _ _ => Exec.ends_throw⟩
  · cases convert jsonText with
    | none => exact ⟨0, fun _ _ => Exec.ends_pure _⟩
    | some buffer =>
      refine ⟨8 * buffer.length + 7, fun fuel hfuel => ?_⟩
      apply (ends_jsonParseUnterminatedString (by omega)).seq
      intro r
      cases r with
      | ok json => exact Exec.ends_pure _
      | error _ => exact Exec.ends_pure _

theorem ends_readHeader {convert : List Byte → Option (List Byte)} {fuel : ℕ} {jsonText : List Byte}
    (h : (jsonParseUnterminatedUtf8String convert fuel jsonText).Ends) :
    (readHeader convert fuel jsonText).Ends := by
  unfold readHeader
  apply h.seq
  intro json
  split
  · split
    · exact Exec.ends_pure _
    · split
      · exact Exec.ends_pure _
      · dsimp only
        split_ifs
        · exact Exec.ends_pure _
        · exact Exec.ends_pure _
  · exact Exec.ends_pure _

theorem ends_readClaims {convert : List Byte → Option (List Byte)} {fuel : ℕ} {jsonText : List Byte}
    (h : (jsonParseUnterminatedUtf8String convert fuel jsonText).Ends) (jwt : Jwt) :
    (readClaims convert fuel jsonText jwt).Ends := by
  unfold readClaims
  apply h.seq
  intro json
  split
  · exact Exec.ends_pure _
  · exact Exec.ends_pure _

theorem Splits.ends {base64Text : CString} (h : Splits base64Text)
    (convert : List Byte → Option (List Byte)) (ebcdic : Bool) (self : JwtContext) :
    ∃ n, ∀ fuel ≥ n, (jwtParse convert fuel base64Text ebcdic self).Ends := by
  obtain ⟨r, hsplit⟩ := h.split_ok ebcdic
  match r, hsplit with
  | none, hsplit =>
    refine ⟨0, fun fuel _ => ?_⟩
    unfold jwtParse
    rw [hsplit]
    exact Exec.ends_pure _
  | some (nparts, s), hsplit =>
    obtain ⟨n, hheader⟩ := ends_jsonParseUnterminatedUtf8String convert (s.part 0)
    obtain ⟨m, hclaims⟩ := ends_jsonParseUnterminatedUtf8String convert (s.part 1)
    refine ⟨max n m, fun fuel hfuel => ?_⟩
    have hheader := ends_readHeader (hheader fuel (le_of_max_le_left hfuel))
    have hclaims := ends_readClaims (hclaims fuel (le_of_max_le_right hfuel))
    unfold jwtParse
    rw [hsplit, Exec.ok_bind]
    dsimp only
    split_ifs
    · exact Exec.ends_pure _
    · exact Exec.ends_pure _
    all_goals
      apply hheader.seq
      intro r
      cases r with
      | error rc => exact Exec.ends_pure _
      | ok header =>
        first
        | exact Exec.ends_pure _
        | apply (hclaims _).seq
          intro r
          cases r with
          | error rc => exact Exec.ends_pure _
          | ok jwt =>
            dsimp only
            split_ifs
            · exact Exec.ends_pure _
            · exact Exec.ends_pure _

/-- What the splitting stays within is the two buffers and the two arrays. -/
theorem inBounds_iff (base64Text : CString) : InBounds base64Text ↔ Splits base64Text := by
  constructor
  · intro h
    obtain ⟨r, hr⟩ := h.split_ok false
    exact splits_of_split hr
  · exact fun h => ⟨h.split_ok, h.ends⟩

/-- A text without a part. -/
theorem not_inBounds : ¬InBounds (CString.ofBytes []) := by
  intro h
  obtain ⟨r, hr⟩ := h.split_ok false
  obtain ⟨c, hc, -⟩ := (splits_of_split hr).part
  exact List.not_mem_nil hc

end Memory
end JsonWebToken
end ZoweCommon
