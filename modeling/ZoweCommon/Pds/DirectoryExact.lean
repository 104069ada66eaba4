import ZoweCommon.Pds.Directory

/-! When the two readers of a directory give what is in it. -/
namespace ZoweCommon
namespace Pds

open CString

variable {block : Block} {e : Entry} {entries : List Entry} {list list' : List CString}

theorem Block.byteAt_eq {pre rest : List Byte} {c : Byte} {i : ℕ}
    (hblock : block.bytes = pre ++ c :: rest) (hi : i = pre.length) : block.byteAt i = .ok c := by
  have hget : block.bytes[i]? = some c := by
    rw [hblock, hi, List.getElem?_append_right le_rfl, Nat.sub_self]
    rfl
  unfold Block.byteAt
  rw [hget]
  rfl

theorem Block.copy_eq {pre part rest : List Byte} {i count : ℕ}
    (hblock : block.bytes = pre ++ (part ++ rest)) (hi : i = pre.length)
    (hcount : count = part.length) : block.copy i count = .ok part := by
  have hlength : i + count ≤ block.bytes.length := by
    rw [hblock, List.length_append, List.length_append]
    omega
  unfold Block.copy
  rw [if_pos hlength, hblock, hi, List.drop_left, hcount, List.take_left]
  rfl

theorem Entry.bytes_length (e : Entry) : e.bytes.length = entryLength e.flags := by
  unfold Entry.bytes entryLength
  rw [List.length_append, List.length_append, List.length_cons, e.name_length, e.ttr_length,
    e.userData_length]
  omega

/-- What is at the position of an entry. -/
structure At (block : Block) (i : ℕ) (e : Entry) (next : ℕ) : Prop where
  name : block.copy i 8 = .ok e.name
  flags : block.byteAt (i + 11) = .ok e.flags
  next_eq : next = i + entryLength e.flags
  next_le : next ≤ 256

theorem at_of_bytes {pre rest : List Byte} {i : ℕ}
    (hblock : block.bytes = pre ++ (e.bytes ++ rest)) (hi : i = pre.length) :
    At block i e (i + entryLength e.flags) := by
  have hname := e.name_length
  have httr := e.ttr_length
  unfold Entry.bytes at hblock
  have hflags : block.bytes = (pre ++ e.name ++ e.ttr) ++ e.flags :: (e.userData ++ rest) := by
    rw [hblock]
    simp only [List.append_assoc, List.cons_append]
  have hcopied : block.bytes = pre ++ (e.name ++ (e.ttr ++ e.flags :: e.userData ++ rest)) := by
    rw [hblock]
    simp only [List.append_assoc]
  refine ⟨Block.copy_eq hcopied hi hname.symm, Block.byteAt_eq hflags ?_, rfl, ?_⟩
  · rw [List.length_append, List.length_append]
    omega
  · have hlength := congrArg List.length hblock
    have hentry := e.bytes_length
    unfold Entry.bytes at hentry
    rw [block.length_eq, List.length_append, List.length_append, hentry] at hlength
    omega

/-- Entries one behind the other, from one position to another. -/
inductive Chain (block : Block) : ℕ → List Entry → ℕ → Prop
  | nil (i : ℕ) : Chain block i [] i
  | cons {i j k : ℕ} {e : Entry} {entries : List Entry} (h : At block i e j)
      (hs : Chain block j entries k) : Chain block i (e :: entries) k

theorem chain_of_bytes {rest : List Byte} : ∀ (entries : List Entry) {pre : List Byte} {i : ℕ},
    block.bytes = pre ++ (entries.flatMap Entry.bytes ++ rest) → i = pre.length →
    Chain block i entries (i + (entries.flatMap Entry.bytes).length) := by
  intro entries
  induction entries with
  | nil =>
    intro pre i _ _
    exact .nil i
  | cons e entries ih =>
    intro pre i hblock hi
    rw [List.flatMap_cons, List.append_assoc] at hblock
    have hrest : block.bytes = (pre ++ e.bytes) ++ (entries.flatMap Entry.bytes ++ rest) := by
      rw [hblock]
      simp only [List.append_assoc]
    have hat := at_of_bytes hblock hi
    have hentry := e.bytes_length
    have hnext : i + entryLength e.flags = (pre ++ e.bytes).length := by
      rw [List.length_append, hentry, hi]
    have hchain := ih hrest hnext
    rw [List.flatMap_cons, List.length_append, hentry, ← Nat.add_assoc]
    exact .cons hat hchain

theorem Block.Holds.chain (h : block.Holds entries) : Chain block 2 entries (used entries) := by
  obtain ⟨rest, hblock⟩ := h
  have hbytes : block.bytes = [BitVec.ofNat 8 (used entries / 256), BitVec.ofNat 8 (used entries)] ++
      (entries.flatMap Entry.bytes ++ rest) := hblock
  exact chain_of_bytes entries hbytes rfl

theorem Chain.append_inv {k : ℕ} : ∀ {es fs : List Entry} {i : ℕ}, Chain block i (es ++ fs) k →
    ∃ j, Chain block i es j ∧ Chain block j fs k := by
  intro es
  induction es with
  | nil =>
    intro fs i h
    exact ⟨i, .nil i, h⟩
  | cons e es ih =>
    intro fs i h
    cases h with
    | cons h hs =>
      obtain ⟨j, hes, hfs⟩ := ih hs
      exact ⟨j, .cons h hes, hfs⟩

theorem Chain.le {i k : ℕ} (h : Chain block i entries k) : i ≤ k := by
  induction h with
  | nil i => exact le_rfl
  | cons h _ ih =>
    have hnext := h.next_eq
    omega

section Listing

/-- Names that the list can take: they are whole strings, none of them ends the directory, and
they are new. -/
structure Listable (list : List CString) (entries : List Entry) : Prop where
  noNul : ∀ e ∈ entries, NoNul e.name
  ne_end : ∀ e ∈ entries, e.name ≠ pdsEndName
  nodup : (list.map CString.bytes ++ entries.map Entry.name).Nodup

theorem noNul_pdsEndName : NoNul pdsEndName := by
  intro c hc
  rw [List.eq_of_mem_replicate hc]
  decide

theorem ofBytes_eq_pdsEndName {name : List Byte} (hname : NoNul name)
    (h : ofBytes name = ofBytes pdsEndName) : name = pdsEndName := by
  have hbytes := congrArg CString.bytes h
  rwa [ofBytes_of_noNul hname, ofBytes_of_noNul noNul_pdsEndName] at hbytes

theorem listBlock_entry {i j : ℕ} (h : At block i e j)
    (hend : ofBytes e.name ≠ ofBytes pdsEndName) :
    listBlock block list i = listBlock block (addToStringListUnique list (ofBytes e.name)) j := by
  have hlt : i < 256 := by
    have hnext := h.next_eq
    have hle := h.next_le
    unfold entryLength at hnext
    omega
  rw [listBlock, if_pos hlt, h.flags, Exec.ok_bind, h.name, Exec.ok_bind, if_neg hend, h.next_eq]

theorem listBlock_end {i j : ℕ} (h : At block i e j) (hend : e.name = pdsEndName) :
    listBlock block list i = .ok (true, list) := by
  have hlt : i < 256 := by
    have hnext := h.next_eq
    have hle := h.next_le
    unfold entryLength at hnext
    omega
  rw [listBlock, if_pos hlt, h.flags, Exec.ok_bind, h.name, Exec.ok_bind, hend, if_pos rfl]
  rfl

theorem Listable.append {es fs : List Entry} (h : Listable list (es ++ fs)) :
    Listable list es ∧ Listable (list ++ es.map fun e => ofBytes e.name) fs := by
  have hbytes : (es.map fun e => ofBytes e.name).map CString.bytes = es.map Entry.name := by
    rw [List.map_map]
    apply List.map_congr_left
    intro e he
    exact ofBytes_of_noNul (h.noNul e (List.mem_append_left _ he))
  have hnodup := h.nodup
  rw [List.map_append, ← List.append_assoc] at hnodup
  refine ⟨⟨fun e he => h.noNul e (List.mem_append_left _ he),
    fun e he => h.ne_end e (List.mem_append_left _ he), (List.nodup_append.mp hnodup).1⟩,
    ⟨fun e he => h.noNul e (List.mem_append_right _ he),
    fun e he => h.ne_end e (List.mem_append_right _ he), ?_⟩⟩
  rw [List.map_append, hbytes]
  exact hnodup

theorem listBlock_chain {i k : ℕ} (h : Chain block i entries k) : ∀ {list : List CString},
    Listable list entries →
    listBlock block list i = listBlock block (list ++ entries.map fun e => ofBytes e.name) k := by
  induction h with
  | nil i =>
    intro list _
    rw [List.map_nil, List.append_nil]
  | @cons i j k e entries h _ ih =>
    intro list hlist
    have hnoNul := hlist.noNul e List.mem_cons_self
    have hne := hlist.ne_end e List.mem_cons_self
    have hnew : ofBytes e.name ∉ list := by
      intro hmem
      have hname : e.name ∈ list.map CString.bytes :=
        List.mem_map.mpr ⟨_, hmem, ofBytes_of_noNul hnoNul⟩
      have hdisjoint := (List.nodup_append.mp hlist.nodup).2.2
      exact hdisjoint _ hname _ List.mem_cons_self rfl
    have hsplit : Listable list ([e] ++ entries) := hlist
    have hrest : Listable (list ++ [ofBytes e.name]) entries := hsplit.append.2
    rw [listBlock_entry h fun heq => hne (ofBytes_eq_pdsEndName hnoNul heq), addToStringListUnique,
      if_neg hnew, ih hrest, List.append_assoc]
    rfl

theorem listBlock_full (h : block.Holds entries) (hfull : used entries = 256)
    (hlist : Listable list entries) :
    listBlock block list 2 = .ok (false, list ++ entries.map fun e => ofBytes e.name) := by
  rw [listBlock_chain h.chain hlist, hfull, listBlock, if_neg (lt_irrefl 256)]
  rfl

theorem listBlock_last (h : block.Holds (entries ++ [e])) (hend : e.name = pdsEndName)
    (hlist : Listable list entries) :
    listBlock block list 2 = .ok (true, list ++ entries.map fun e => ofBytes e.name) := by
  obtain ⟨j, hes, he⟩ := h.chain.append_inv
  rw [listBlock_chain hes hlist]
  cases he with
  | cons hat _ => exact listBlock_end hat hend

theorem listBlocks_full {pre : List Block} {before : List (List Entry)}
    (h : List.Forall₂ Block.Holds pre before) (hfull : ∀ es ∈ before, used es = 256)
    (rest : List Block) : ∀ {list : List CString}, Listable list before.flatten →
    listBlocks list (pre ++ rest) =
      listBlocks (list ++ before.flatten.map fun e => ofBytes e.name) rest := by
  induction h with
  | nil =>
    intro list _
    rw [List.flatten_nil, List.map_nil, List.append_nil]
    rfl
  | @cons block es pre before h _ ih =>
    intro list hlist
    rw [List.flatten_cons] at hlist
    obtain ⟨hes, hbefore⟩ := hlist.append
    rw [List.cons_append, listBlocks, listBlock_full h (hfull es List.mem_cons_self) hes,
      Exec.ok_bind]
    dsimp only
    rw [if_neg Bool.false_ne_true, ih (fun es he => hfull es (List.mem_cons_of_mem _ he)) hbefore,
      List.flatten_cons, List.map_append, List.append_assoc]

theorem Directory.listable {d : Directory} (hnoNul : ∀ e ∈ d.members, NoNul e.name) :
    Listable [] d.members := by
  have hdistinct := d.distinct
  rw [List.map_append, List.nodup_append] at hdistinct
  refine ⟨hnoNul, fun e he hend => ?_, hdistinct.1⟩
  refine hdistinct.2.2 e.name (List.mem_map_of_mem he) d.endEntry.name ?_ ?_
  · rw [List.map_singleton]
    exact List.mem_singleton_self _
  · rw [hend, d.endEntry_name]

theorem listBlocks_written {d : Directory} {blocks : List Block} (h : d.Written blocks)
    (hfull : ∀ es ∈ d.before, used es = 256) (hnoNul : ∀ e ∈ d.members, NoNul e.name) :
    listBlocks [] blocks = .ok (d.members.map fun e => ofBytes e.name) := by
  obtain ⟨pre, block, post, rfl, hpre, hblock⟩ := h
  obtain ⟨hbefore, hlast⟩ := (Directory.listable hnoNul).append
  rw [listBlocks_full hpre hfull _ hbefore, listBlocks,
    listBlock_last hblock d.endEntry_name hlast, Exec.ok_bind]
  dsimp only
  rw [if_pos rfl, Directory.members, List.map_append, List.nil_append]
  rfl

end Listing

section Iterating

variable {iterator iterator' : PDSIterator} {names : List CString}

theorem mem_endAtBlank (name : List Byte) : BLANK ∉ (ofBytes (endAtBlank name ++ [0])).bytes := by
  induction name with
  | nil =>
    intro h
    cases h
  | cons c name ih =>
    rw [endAtBlank]
    split_ifs with hc
    · intro h
      cases h
    · by_cases hnul : c = 0
      · intro h
        rw [hnul] at h
        cases h
      · intro h
        rw [List.cons_append] at h
        have hcons : (ofBytes (c :: (endAtBlank name ++ [0]))).bytes =
            c :: (ofBytes (endAtBlank name ++ [0])).bytes := by
          unfold ofBytes
          dsimp only
          rw [List.takeWhile_cons_of_pos (by simpa using hnul)]
        rw [hcons] at h
        obtain rfl | hmem := List.mem_cons.mp h
        · exact hc rfl
        · exact ih hmem

theorem endAtBlank_eq_pdsEndName {name : List Byte} : endAtBlank name = pdsEndName ↔
    name = pdsEndName := by
  have hzero : (0 : Byte) ∉ pdsEndName := by decide
  have hblank : BLANK ∉ pdsEndName := by decide
  have hsame : ∀ name : List Byte, BLANK ∉ name → endAtBlank name = name := by
    intro name
    induction name with
    | nil =>
      intro _
      rfl
    | cons c name ih =>
      intro h
      rw [List.mem_cons, not_or] at h
      rw [endAtBlank, if_neg fun hc => h.1 hc.symm, ih h.2]
  have hmem : ∀ name : List Byte, BLANK ∈ name → 0 ∈ endAtBlank name := by
    intro name
    induction name with
    | nil =>
      intro h
      cases h
    | cons c name ih =>
      intro h
      rw [endAtBlank]
      split_ifs with hc
      · exact List.mem_cons_self
      · obtain rfl | hmem := List.mem_cons.mp h
        · exact absurd rfl hc
        · exact List.mem_cons_of_mem _ (ih hmem)
  constructor
  · intro h
    by_cases hname : BLANK ∈ name
    · exact absurd (h ▸ hmem name hname) hzero
    · rwa [hsame name hname] at h
  · intro h
    rw [hsame name (h ▸ hblank), h]

theorem endAtBlank_length (name : List Byte) : (endAtBlank name).length = name.length := by
  induction name with
  | nil => rfl
  | cons c name ih =>
    rw [endAtBlank]
    split_ifs
    · rfl
    · rw [List.length_cons, List.length_cons, ih]

theorem withoutTrailingBlanks_padded {text : List Byte} (count : ℕ) (hblank : BLANK ∉ text) :
    withoutTrailingBlanks (text ++ List.replicate count BLANK) = text := by
  unfold withoutTrailingBlanks
  induction count with
  | zero =>
    rw [List.replicate_zero, List.append_nil, List.rdropWhile_eq_self_iff]
    intro hne hlast
    exact hblank (of_decide_eq_true hlast ▸ List.getLast_mem hne)
  | succ count ih =>
    rw [List.replicate_succ', ← List.append_assoc, List.rdropWhile_concat_pos _ _ _ (by simp), ih]

theorem ofBytes_endAtBlank {name : List Byte} (h : IsPadded name) :
    (ofBytes (endAtBlank name ++ [0])).bytes = withoutTrailingBlanks name := by
  obtain ⟨text, count, rfl, hnoNul, hblank⟩ := h
  rw [withoutTrailingBlanks_padded count hblank]
  have hend : ∃ rest, endAtBlank (text ++ List.replicate count BLANK) ++ [0] = text ++ 0 :: rest := by
    clear hnoNul
    induction text with
    | nil =>
      cases count with
      | zero => exact ⟨[], rfl⟩
      | succ count =>
        rw [List.nil_append, List.replicate_succ, endAtBlank, if_pos rfl]
        exact ⟨_, rfl⟩
    | cons c text ih =>
      rw [List.mem_cons, not_or] at hblank
      obtain ⟨rest, hrest⟩ := ih hblank.2
      refine ⟨rest, ?_⟩
      rw [List.cons_append, endAtBlank, if_neg fun hc => hblank.1 hc.symm, List.cons_append, hrest,
        List.cons_append]
  obtain ⟨rest, hrest⟩ := hend
  unfold ofBytes
  dsimp only
  rw [hrest, List.takeWhile_append_of_pos fun c hc => by simpa using hnoNul c hc,
    List.takeWhile_cons_of_neg (by simp), List.append_nil]

def Yields (iterator : PDSIterator) (names : List CString) : Prop :=
  ∃ calls, iterated calls iterator = .ok names

theorem Yields.of_end (h : nextPDSEntry iterator = .ok (false, iterator')) : Yields iterator [] := by
  refine ⟨1, ?_⟩
  rw [iterated, h]
  rfl

theorem Yields.of_next (h : nextPDSEntry iterator = .ok (true, iterator'))
    (h' : Yields iterator' names) : Yields iterator (ofBytes iterator'.memberName :: names) := by
  obtain ⟨calls, hcalls⟩ := h'
  refine ⟨calls + 1, ?_⟩
  rw [iterated, h, Exec.ok_bind]
  dsimp only
  rw [if_pos rfl, hcalls]
  rfl

def PDSIterator.behind (iterator : PDSIterator) (e : Entry) (next : ℕ) : PDSIterator :=
  { iterator with
    posInBlock := next
    currentPosInBlock := iterator.posInBlock
    memberName := endAtBlank e.name ++ [0] }

theorem take_memberName (e : Entry) :
    (endAtBlank e.name ++ [0]).take 8 = pdsEndName ↔ e.name = pdsEndName := by
  have hlength : (endAtBlank e.name).length = 8 := by rw [endAtBlank_length, e.name_length]
  have htake : (endAtBlank e.name ++ [0]).take 8 = endAtBlank e.name := List.take_left' hlength
  rw [htake]
  exact endAtBlank_eq_pdsEndName

theorem readEntry_member {next : ℕ} (h : At iterator.block iterator.posInBlock e next)
    (hne : e.name ≠ pdsEndName) : readEntry iterator = .ok (true, iterator.behind e next) := by
  have htake : ¬(endAtBlank e.name ++ [0]).take 8 = pdsEndName := mt (take_memberName e).mp hne
  rw [readEntry, h.name, Exec.ok_bind]
  dsimp only
  rw [h.flags, Exec.ok_bind, if_neg htake, ← h.next_eq]
  rfl

theorem readEntry_end {next : ℕ} (h : At iterator.block iterator.posInBlock e next)
    (hend : e.name = pdsEndName) : ∃ iterator', readEntry iterator = .ok (false, iterator') := by
  have htake : (endAtBlank e.name ++ [0]).take 8 = pdsEndName := (take_memberName e).mpr hend
  rw [readEntry, h.name, Exec.ok_bind]
  dsimp only
  rw [h.flags, Exec.ok_bind, if_pos htake]
  exact ⟨_, rfl⟩

/-- The iterator has more to read. -/
structure Going (iterator : PDSIterator) : Prop where
  notDone : iterator.done = false
  notEof : iterator.file.eof = false

theorem nextPDSEntry_inside (hgoing : Going iterator)
    (hpos : (iterator.posInBlock : ℤ) < iterator.bytesInBlock) :
    nextPDSEntry iterator = readEntry iterator := by
  have hnot : ¬iterator.bytesInBlock ≤ iterator.posInBlock := by omega
  rw [nextPDSEntry, if_neg (Bool.eq_false_iff.mp hgoing.notDone), if_neg hnot]

theorem usedLength_eq (h : block.Holds entries) (hfits : used entries ≤ 256) :
    usedLength block = .ok (used entries) := by
  obtain ⟨rest, hblock⟩ := h
  have hhigh : block.bytes = [] ++ BitVec.ofNat 8 (used entries / 256) ::
      BitVec.ofNat 8 (used entries) :: (entries.flatMap Entry.bytes ++ rest) := hblock
  have hlow : block.bytes = [BitVec.ofNat 8 (used entries / 256)] ++
      BitVec.ofNat 8 (used entries) :: (entries.flatMap Entry.bytes ++ rest) := hblock
  have hbyte₀ : block.byteAt 0 = .ok (BitVec.ofNat 8 (used entries / 256)) :=
    Block.byteAt_eq hhigh rfl
  have hbyte₁ : block.byteAt 1 = .ok (BitVec.ofNat 8 (used entries)) := Block.byteAt_eq hlow rfl
  rw [usedLength, hbyte₀, Exec.ok_bind, hbyte₁, Exec.ok_bind, BitVec.toNat_ofNat,
    BitVec.toNat_ofNat]
  have hnumber : used entries / 256 % 2 ^ 8 * 256 + used entries % 2 ^ 8 = used entries := by omega
  rw [hnumber]
  rfl

def PDSIterator.withBlock (iterator : PDSIterator) (block : Block) (entries : List Entry)
    (blocks : List Block) : PDSIterator :=
  { iterator with
    block
    file := ⟨blocks, iterator.file.eof⟩
    bytesInBlock := used entries
    posInBlock := 2 }

theorem nextPDSEntry_block {blocks : List Block} (hgoing : Going iterator)
    (hpos : iterator.bytesInBlock ≤ iterator.posInBlock)
    (hblocks : iterator.file.blocks = block :: blocks) (h : block.Holds entries)
    (hfits : used entries ≤ 256) :
    nextPDSEntry iterator = readEntry (iterator.withBlock block entries blocks) := by
  rw [nextPDSEntry, if_neg (Bool.eq_false_iff.mp hgoing.notDone), if_pos hpos,
    if_neg (Bool.eq_false_iff.mp hgoing.notEof), fread, hblocks]
  dsimp only
  rw [usedLength_eq h hfits, Exec.ok_bind]
  rfl

def shortName (e : Entry) : CString := ofBytes (endAtBlank e.name ++ [0])

/-- The members of a block one after the other, and then what comes behind them. -/
theorem yields_chain {i : ℕ} {rest : List CString} : ∀ (entries : List Entry) {e : Entry}
    {iterator reading : PDSIterator}, nextPDSEntry iterator = readEntry reading → Going reading →
    Chain reading.block reading.posInBlock (e :: entries) i → (i : ℤ) ≤ reading.bytesInBlock →
    (∀ f ∈ e :: entries, f.name ≠ pdsEndName) →
    (∀ iterator', Going iterator' → iterator'.posInBlock = i →
      iterator'.block = reading.block → iterator'.bytesInBlock = reading.bytesInBlock →
      iterator'.file = reading.file → Yields iterator' rest) →
    Yields iterator ((e :: entries).map shortName ++ rest) := by
  intro entries
  induction entries with
  | nil =>
    intro e iterator reading hnext hgoing hchain _ hne hrest
    cases hchain with
    | @cons _ j _ _ _ hat hs =>
      cases hs
      rw [readEntry_member hat (hne e List.mem_cons_self)] at hnext
      exact .of_next hnext (hrest _ ⟨hgoing.notDone, hgoing.notEof⟩ rfl rfl rfl rfl)
  | cons e' entries ih =>
    intro e iterator reading hnext hgoing hchain hle hne hrest
    cases hchain with
    | @cons _ j _ _ _ hat hs =>
      rw [readEntry_member hat (hne e List.mem_cons_self)] at hnext
      have hgoing' : Going (reading.behind e j) := ⟨hgoing.notDone, hgoing.notEof⟩
      have hinside : (j : ℤ) < reading.bytesInBlock := by
        cases hs with
        | cons hat' hs' =>
          have hlt := hs'.le
          have hnext' := hat'.next_eq
          unfold entryLength at hnext'
          omega
      have hyields := ih (nextPDSEntry_inside hgoing' hinside) hgoing' hs hle
        (fun f hf => hne f (List.mem_cons_of_mem _ hf)) hrest
      exact .of_next hnext hyields

theorem Directory.ne_end (d : Directory) (e : Entry) (he : e ∈ d.members) :
    e.name ≠ pdsEndName := by
  have hdistinct := d.distinct
  rw [List.map_append, List.nodup_append] at hdistinct
  intro hend
  refine hdistinct.2.2 e.name (List.mem_map_of_mem he) d.endEntry.name ?_ ?_
  · rw [List.map_singleton]
    exact List.mem_singleton_self _
  · rw [hend, d.endEntry_name]

theorem yields_last {blocks : List Block} (hgoing : Going iterator)
    (hpos : iterator.bytesInBlock ≤ iterator.posInBlock)
    (hblocks : iterator.file.blocks = block :: blocks) (h : block.Holds (entries ++ [e]))
    (hfits : used (entries ++ [e]) ≤ 256) (hne : ∀ f ∈ entries, f.name ≠ pdsEndName)
    (hend : e.name = pdsEndName) : Yields iterator (entries.map shortName) := by
  have hnext := nextPDSEntry_block hgoing hpos hblocks h hfits
  have hreading : Going (iterator.withBlock block (entries ++ [e]) blocks) :=
    ⟨hgoing.notDone, hgoing.notEof⟩
  obtain ⟨j, hes, he⟩ := h.chain.append_inv
  cases he with
  | @cons _ k _ _ _ hat hs =>
    cases entries with
    | nil =>
      cases hes
      have hat' : At (iterator.withBlock block ([] ++ [e]) blocks).block
          (iterator.withBlock block ([] ++ [e]) blocks).posInBlock e k := hat
      obtain ⟨iterator', hread⟩ := readEntry_end hat' hend
      rw [hread] at hnext
      exact .of_end hnext
    | cons f entries =>
      have hle := hs.le
      have hlt := hat.next_eq
      unfold entryLength at hlt
      have hj : (j : ℤ) < used (f :: entries ++ [e]) := by omega
      have hj' : (j : ℤ) ≤ (iterator.withBlock block (f :: entries ++ [e]) blocks).bytesInBlock :=
        Int.le_of_lt hj
      rw [← List.append_nil ((f :: entries).map shortName)]
      refine yields_chain entries hnext hreading hes hj' hne ?_
      intro iterator' hgoing' hpos' hblock' hbytes' _
      have hinside : (iterator'.posInBlock : ℤ) < iterator'.bytesInBlock := by
        rw [hpos', hbytes']
        exact hj
      have hat' : At iterator'.block iterator'.posInBlock e k := by
        rw [hblock', hpos']
        exact hat
      obtain ⟨iterator'', hread⟩ := readEntry_end hat' hend
      rw [← nextPDSEntry_inside hgoing' hinside] at hread
      exact .of_end hread

theorem yields_directory {d : Directory} {pre : List Block} {before : List (List Entry)}
    {post : List Block} (hpre : List.Forall₂ Block.Holds pre before)
    (hlast : block.Holds (d.last ++ [d.endEntry])) :
    (∀ es ∈ before, es ≠ []) → (∀ es ∈ before, used es ≤ 256) →
    (∀ e ∈ before.flatten ++ d.last, e.name ≠ pdsEndName) →
    ∀ {iterator : PDSIterator}, Going iterator → iterator.bytesInBlock ≤ iterator.posInBlock →
      iterator.file.blocks = pre ++ block :: post →
      Yields iterator ((before.flatten ++ d.last).map shortName) := by
  induction hpre with
  | nil =>
    intro _ _ hne iterator hgoing hpos hblocks
    exact yields_last hgoing hpos hblocks hlast d.fits_last hne d.endEntry_name
  | @cons b es pre before h _ ih =>
    intro hnonempty hfits hne iterator hgoing hpos hblocks
    obtain ⟨e, es, rfl⟩ := List.exists_cons_of_ne_nil (hnonempty es List.mem_cons_self)
    have hnext := nextPDSEntry_block hgoing hpos hblocks h (hfits _ List.mem_cons_self)
    rw [List.flatten_cons, List.append_assoc, List.map_append]
    have hreading : Going (iterator.withBlock b (e :: es) (pre ++ block :: post)) :=
      ⟨hgoing.notDone, hgoing.notEof⟩
    refine yields_chain es hnext hreading h.chain (Int.le_refl _) ?_ ?_
    · intro f hf
      exact hne f (List.mem_append_left _ (List.mem_flatten_of_mem List.mem_cons_self hf))
    · intro iterator' hgoing' hpos' _ hbytes' hfile'
      apply ih (fun es he => hnonempty es (List.mem_cons_of_mem _ he))
        (fun es he => hfits es (List.mem_cons_of_mem _ he)) _ hgoing'
      · rw [hbytes', hpos']
        exact Int.le_refl _
      · rw [hfile']
        rfl
      · intro f hf
        refine hne f ?_
        rw [List.flatten_cons, List.append_assoc]
        exact List.mem_append_right _ hf

end Iterating

theorem IsPadded.noNul {name : List Byte} (h : IsPadded name) : NoNul name := by
  obtain ⟨text, count, rfl, hnoNul, -⟩ := h
  apply hnoNul.append
  intro c hc
  rw [List.eq_of_mem_replicate hc]
  decide

/-- Both readers are exact when each block before the last one is full. -/
theorem Directory.exact (d : Directory) (hfull : ∀ es ∈ d.before, used es = 256)
    (hpadded : ∀ e ∈ d.members, IsPadded e.name) {fopen : CString → Option (List Block)}
    {pdsName filename : CString} {blocks : List Block}
    (hname : directoryFilename pdsName = .ok filename) (hopen : fopen filename = some blocks)
    (hwritten : d.Written blocks) : Exact fopen pdsName d.members := by
  have hnoNul : ∀ e ∈ d.members, NoNul e.name := fun e he => (hpadded e he).noNul
  constructor
  · refine ⟨d.members.map fun e => ofBytes e.name, ?_, ?_⟩
    · rw [getPDSMembers, hname, Exec.ok_bind, hopen]
      exact listBlocks_written hwritten hfull hnoNul
    · rw [List.map_map]
      apply List.map_congr_left
      intro e he
      exact ofBytes_of_noNul (hnoNul e he)
  · obtain ⟨pre, block, post, rfl, hpre, hlast⟩ := hwritten
    have hnonempty : ∀ es ∈ d.before, es ≠ [] := by
      intro es he hnil
      have hused := hfull es he
      rw [hnil] at hused
      cases hused
    have hyields := @yields_directory _ d _ _ post hpre hlast hnonempty d.fits_before d.ne_end
    obtain ⟨iterator, hstart, hgoing, hpos, hfile⟩ : ∃ iterator,
        startPDSIterator fopen pdsName = .ok (some iterator) ∧ Going iterator ∧
          iterator.bytesInBlock ≤ iterator.posInBlock ∧
          iterator.file.blocks = pre ++ block :: post := by
      rw [startPDSIterator, hname, Exec.ok_bind, hopen]
      exact ⟨_, rfl, ⟨rfl, rfl⟩, Int.neg_nonpos_of_nonneg Int.one_nonneg, rfl⟩
    obtain ⟨calls, hcalls⟩ := hyields hgoing hpos hfile
    refine ⟨iterator, calls, _, hstart, hcalls, ?_⟩
    rw [List.map_map]
    apply List.map_congr_left
    intro e he
    exact ofBytes_endAtBlank (hpadded e he)

section Converse

/-- A block with nothing but zeros after its entries. -/
def Block.Bare (block : Block) (entries : List Entry) : Prop :=
  used entries ≤ 256 ∧ block.bytes =
    BitVec.ofNat 8 (used entries / 256) :: BitVec.ofNat 8 (used entries) ::
      (entries.flatMap Entry.bytes ++ List.replicate (256 - used entries) 0)

theorem Block.Bare.holds (h : block.Bare entries) : block.Holds entries := ⟨_, h.2⟩

theorem exists_bare (hfits : used entries ≤ 256) : ∃ block : Block, block.Bare entries := by
  refine ⟨⟨BitVec.ofNat 8 (used entries / 256) :: BitVec.ofNat 8 (used entries) ::
    (entries.flatMap Entry.bytes ++ List.replicate (256 - used entries) 0), ?_⟩, hfits, rfl⟩
  rw [List.length_cons, List.length_cons, List.length_append, List.length_replicate]
  unfold used at hfits ⊢
  omega

theorem exists_bares : ∀ before : List (List Entry), (∀ es ∈ before, used es ≤ 256) →
    ∃ pre, List.Forall₂ Block.Bare pre before := by
  intro before
  induction before with
  | nil =>
    intro _
    exact ⟨[], .nil⟩
  | cons es before ih =>
    intro h
    obtain ⟨block, hblock⟩ := exists_bare (h es List.mem_cons_self)
    obtain ⟨pre, hpre⟩ := ih fun es he => h es (List.mem_cons_of_mem _ he)
    exact ⟨block :: pre, .cons hblock hpre⟩

theorem subset_addToStringListUnique (list : List CString) (s : CString) :
    list ⊆ addToStringListUnique list s := by
  unfold addToStringListUnique
  split_ifs
  · exact List.Subset.refl list
  · exact List.subset_append_left list [s]

/-- A name stays in the list. -/
theorem listBlock_subset {i : ℕ} {last : Bool} (h : listBlock block list i = .ok (last, list')) :
    list ⊆ list' := by
  induction hsize : 256 - i using Nat.strong_induction_on generalizing i list with
  | _ n ih =>
    rw [listBlock] at h
    split_ifs at h with hlt
    · rw [Exec.bind_eq_ok] at h
      obtain ⟨flags, -, h⟩ := h
      rw [Exec.bind_eq_ok] at h
      obtain ⟨name, -, h⟩ := h
      split_ifs at h
      · cases h
        exact List.Subset.refl _
      · have hsmaller : 256 - (i + entryLength flags) < n := by
          unfold entryLength
          omega
        have hrest := ih _ hsmaller h rfl
        exact List.Subset.trans (subset_addToStringListUnique _ (ofBytes name)) hrest
    · cases h
      exact List.Subset.refl _

theorem listBlocks_subset {blocks : List Block} : ∀ {list : List CString},
    listBlocks list blocks = .ok list' → list ⊆ list' := by
  induction blocks with
  | nil =>
    intro list h
    cases h
    exact List.Subset.refl _
  | cons block blocks ih =>
    intro list h
    rw [listBlocks, Exec.bind_eq_ok] at h
    obtain ⟨⟨last, list₁⟩, hblock, h⟩ := h
    have hsub := listBlock_subset hblock
    dsimp only at h
    split_ifs at h
    · cases h
      exact hsub
    · exact List.Subset.trans hsub (ih h)

theorem listBlock_notFull {last : Bool} (h : block.Bare entries) (hne : used entries ≠ 256)
    (hlist : Listable list entries) (hrun : listBlock block list 2 = .ok (last, list')) :
    ofBytes [] ∈ list' := by
  have hfits := h.1
  rw [listBlock_chain h.holds.chain hlist, listBlock, if_pos (by omega), Exec.bind_eq_ok] at hrun
  obtain ⟨flags, -, hrun⟩ := hrun
  rw [Exec.bind_eq_ok] at hrun
  obtain ⟨name, hname, hrun⟩ := hrun
  have hzero : name = List.replicate 8 0 := by
    unfold Block.copy at hname
    split_ifs at hname with hlength
    · cases hname
      rw [block.length_eq] at hlength
      have hdrop : block.bytes.drop (used entries) = List.replicate (256 - used entries) 0 := by
        have hused : used entries = (entries.flatMap Entry.bytes).length + 2 := Nat.add_comm _ _
        rw [h.2]
        conv_lhs => rw [hused]
        rw [List.drop_succ_cons, List.drop_succ_cons, List.drop_left, ← hused]
      have hcount : 8 ≤ 256 - used entries := by omega
      rw [hdrop, List.take_replicate, Nat.min_eq_left hcount]
  have hempty : ofBytes name = ofBytes [] := by
    rw [hzero]
    rfl
  have hnotEnd : ofBytes ([] : List Byte) ≠ ofBytes pdsEndName := by
    intro heq
    have hbytes := congrArg CString.bytes heq
    rw [ofBytes_of_noNul noNul_pdsEndName] at hbytes
    cases hbytes
  rw [hempty, if_neg hnotEnd] at hrun
  apply listBlock_subset hrun
  unfold addToStringListUnique
  split_ifs with hmem
  · exact hmem
  · exact List.mem_append_right _ (List.mem_singleton_self _)

theorem full_of_listBlocks {pre : List Block} {before : List (List Entry)} {rest : List Block}
    (h : List.Forall₂ Block.Bare pre before) (hempty : ofBytes [] ∉ list') :
    ∀ {list : List CString}, Listable list before.flatten →
      listBlocks list (pre ++ rest) = .ok list' → ∀ es ∈ before, used es = 256 := by
  induction h with
  | nil =>
    intro list _ _ es he
    cases he
  | @cons block es pre before hblock _ ih =>
    intro list hlist hrun
    rw [List.flatten_cons] at hlist
    obtain ⟨hes, hbefore⟩ := hlist.append
    rw [List.cons_append, listBlocks, Exec.bind_eq_ok] at hrun
    obtain ⟨⟨last, list₁⟩, hread, hrun⟩ := hrun
    have hfull : used es = 256 := by
      by_contra hne
      have hmem := listBlock_notFull hblock hne hes hread
      dsimp only at hrun
      split_ifs at hrun
      · cases hrun
        exact hempty hmem
      · exact hempty (listBlocks_subset hrun hmem)
    rw [listBlock_full hblock.holds hfull hes] at hread
    cases hread
    dsimp only at hrun
    rw [if_neg Bool.false_ne_true] at hrun
    exact List.forall_mem_cons.mpr ⟨hfull, ih hbefore hrun⟩

theorem not_mem_iterated {calls : ℕ} : ∀ {iterator : PDSIterator} {names : List CString},
    iterated calls iterator = .ok names → ∀ s ∈ names, BLANK ∉ s.bytes := by
  have hentry : ∀ {iterator iterator' : PDSIterator}, readEntry iterator = .ok (true, iterator') →
      BLANK ∉ (ofBytes iterator'.memberName).bytes := by
    intro iterator iterator' h
    rw [readEntry, Exec.bind_eq_ok] at h
    obtain ⟨name, -, h⟩ := h
    dsimp only at h
    rw [Exec.bind_eq_ok] at h
    obtain ⟨flags, -, h⟩ := h
    split_ifs at h
    · cases h
    · cases h
      exact mem_endAtBlank name
  have hnext : ∀ {iterator iterator' : PDSIterator},
      nextPDSEntry iterator = .ok (true, iterator') →
      BLANK ∉ (ofBytes iterator'.memberName).bytes := by
    intro iterator iterator' h
    unfold nextPDSEntry at h
    split_ifs at h
    · cases h
    · cases h
    · dsimp only at h
      rw [Exec.bind_eq_ok] at h
      obtain ⟨bytesInBlock, -, h⟩ := h
      exact hentry h
    · exact hentry h
  induction calls with
  | zero =>
    intro iterator names h
    cases h
  | succ calls ih =>
    intro iterator names h
    rw [iterated, Exec.bind_eq_ok] at h
    obtain ⟨⟨found, iterator'⟩, hcall, h⟩ := h
    dsimp only at h
    split_ifs at h with hfound
    · rw [Exec.bind_eq_ok] at h
      obtain ⟨names', hnames', h⟩ := h
      cases h
      subst hfound
      exact List.forall_mem_cons.mpr ⟨hnext hcall, ih hnames'⟩
    · cases h
      exact List.forall_mem_nil _

theorem isPadded_of_not_mem {name : List Byte} (hnoNul : NoNul name)
    (h : BLANK ∉ withoutTrailingBlanks name) : IsPadded name := by
  have hsplit : withoutTrailingBlanks name ++ name.rtakeWhile (· = BLANK) = name :=
    List.rdropWhile_append_rtakeWhile
  refine ⟨withoutTrailingBlanks name, (name.rtakeWhile (· = BLANK)).length, ?_, ?_, h⟩
  · have hblanks : name.rtakeWhile (· = BLANK) =
        List.replicate (name.rtakeWhile (· = BLANK)).length BLANK := by
      apply List.eq_replicate_of_mem
      intro c hc
      have hblank := @List.mem_rtakeWhile_imp _ (fun c => decide (c = BLANK)) name c hc
      exact of_decide_eq_true hblank
    rw [← hblanks, hsplit]
  · intro c hc
    exact hnoNul c (hsplit ▸ List.mem_append_left _ hc)

/-- It takes no more than zeros behind the entries to tell. -/
theorem Directory.full_and_padded (d : Directory)
    (h : ∀ (fopen : CString → Option (List Block)) (pdsName filename : CString)
      (blocks : List Block), directoryFilename pdsName = .ok filename →
      fopen filename = some blocks → d.Written blocks → Exact fopen pdsName d.members) :
    (∀ es ∈ d.before, used es = 256) ∧ ∀ e ∈ d.members, IsPadded e.name := by
  obtain ⟨pre, hpre⟩ := exists_bares d.before d.fits_before
  obtain ⟨block, hblock⟩ := exists_bare d.fits_last
  obtain ⟨filename, hname⟩ : ∃ filename, directoryFilename (ofBytes []) = .ok filename := ⟨_, rfl⟩
  have hwritten : d.Written (pre ++ [block]) :=
    ⟨pre, block, [], rfl, hpre.imp fun _ _ hb => hb.holds, hblock.holds⟩
  have hexact := h (fun _ => some (pre ++ [block])) (ofBytes []) filename _ hname rfl hwritten
  obtain ⟨list, hrun, hlist⟩ := hexact.listed
  have hnoNul : ∀ e ∈ d.members, NoNul e.name := by
    intro e he
    have hmem : e.name ∈ list.map CString.bytes := by
      rw [hlist]
      exact List.mem_map_of_mem he
    obtain ⟨s, _, hs⟩ := List.mem_map.mp hmem
    rw [← hs]
    exact s.noNul
  constructor
  · rw [getPDSMembers, hname, Exec.ok_bind] at hrun
    refine full_of_listBlocks hpre (fun hmem => ?_) (Directory.listable hnoNul).append.1 hrun
    have hempty : ([] : List Byte) ∈ d.members.map Entry.name := by
      rw [← hlist]
      exact List.mem_map_of_mem hmem
    obtain ⟨e, _, he⟩ := List.mem_map.mp hempty
    have hlength := e.name_length
    rw [he] at hlength
    cases hlength
  · obtain ⟨iterator, calls, names, -, hcalls, hnames⟩ := hexact.iterated
    intro e he
    apply isPadded_of_not_mem (hnoNul e he)
    have hmem : withoutTrailingBlanks e.name ∈ names.map CString.bytes := by
      rw [hnames]
      exact List.mem_map_of_mem he
    obtain ⟨s, hs, heq⟩ := List.mem_map.mp hmem
    rw [← heq]
    exact not_mem_iterated hcalls s hs

end Converse

/-- Whatever bytes there are behind the entries, both readers are exact: that is so when there are
none before the last block, and the blanks of a name are at its end. -/
theorem exact_iff (d : Directory) :
    (∀ (fopen : CString → Option (List Block)) (pdsName filename : CString) (blocks : List Block),
      directoryFilename pdsName = .ok filename → fopen filename = some blocks →
      d.Written blocks → Exact fopen pdsName d.members) ↔
      (∀ es ∈ d.before, used es = 256) ∧ ∀ e ∈ d.members, IsPadded e.name := by
  constructor
  · exact d.full_and_padded
  · intro h fopen pdsName filename blocks hname hopen hwritten
    exact d.exact h.1 h.2 hname hopen hwritten

def memberA : Entry where
  name := Ebcdic.literal "MEMBERA "
  ttr := [0, 0, 1]
  flags := 0
  userData := []
  name_length := rfl
  ttr_length := rfl
  userData_length := rfl

def endOfDirectory : Entry where
  name := pdsEndName
  ttr := [0, 0, 0]
  flags := 0
  userData := []
  name_length := rfl
  ttr_length := rfl
  userData_length := rfl

def halfEmpty : Directory where
  before := [[memberA]]
  last := []
  endEntry := endOfDirectory
  endEntry_name := rfl
  fits_before := by decide
  fits_last := by decide
  distinct := by decide

/-- The rest of a block that is not full is listed, too. -/
theorem not_exact :
    ¬∀ (d : Directory) (fopen : CString → Option (List Block)) (pdsName filename : CString)
      (blocks : List Block), directoryFilename pdsName = .ok filename →
      fopen filename = some blocks → d.Written blocks → Exact fopen pdsName d.members := by
  intro hclaim
  have hfull := (halfEmpty.full_and_padded (hclaim halfEmpty)).1 [memberA] List.mem_cons_self
  exact absurd hfull (by decide)

end Pds
end ZoweCommon
