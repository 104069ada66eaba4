import ZoweCommon.Xml.Tokenizer

/-! Where a text has a token, and what is left of it behind that. -/
namespace ZoweCommon
namespace Xml

section Storing

variable {bytes charSequence : List Byte} {b : Byte}

theorem writeBAOS_room (h : bytes.length < BAOS_MAX) : writeBAOS bytes b = .ok (bytes ++ [b]) :=
  if_pos h

theorem writeBAOS_full (h : ¬bytes.length < BAOS_MAX) :
    writeBAOS bytes b = .error .outOfBounds := if_neg h

theorem storeChar_room (h : charSequence.length < XMLPARSER_CHAR_SEQUENCE_MAX) :
    storeChar charSequence b = .ok (charSequence ++ [b]) := if_pos h

theorem storeChar_full (h : ¬charSequence.length < XMLPARSER_CHAR_SEQUENCE_MAX) :
    storeChar charSequence b = .error .outOfBounds := if_neg h

end Storing

section Comments

variable {text rest : List Byte}

theorem readCommentTail_two : readCommentTail 2 text = .ok (some rest) ↔ text = GREATER :: rest := by
  cases text with
  | nil => exact ⟨nofun, nofun⟩
  | cons b text =>
    rw [readCommentTail, if_pos rfl]
    by_cases hb : b = GREATER
    · rw [if_pos hb, hb, Run.pure_eq_ok, Except.ok.injEq, Option.some_inj, List.cons_inj_right]
    · rw [if_neg hb]
      exact ⟨nofun, fun h => absurd (List.cons.inj h).1 hb⟩

theorem readCommentTail_next {k : Fin 3} (hk : k ≠ 2) :
    readCommentTail k text = .ok (some rest) ↔ ∃ a more, HYPHEN ∉ a ∧ text = a ++ HYPHEN :: more ∧
      readCommentTail (k + 1) more = .ok (some rest) := by
  induction text with
  | nil =>
    rw [readCommentTail, if_neg hk]
    constructor
    · exact nofun
    · intro ⟨a, more, _, htext, _⟩
      cases a with
      | nil => cases htext
      | cons b a => cases htext
  | cons b text ih =>
    rw [readCommentTail, if_neg hk]
    by_cases hb : b = HYPHEN
    · rw [if_pos hb, hb]
      constructor
      · exact fun hrun => ⟨[], text, List.not_mem_nil, rfl, hrun⟩
      · intro ⟨a, more, ha, htext, hrun⟩
        cases a with
        | nil =>
          rw [(List.cons.inj htext).2]
          exact hrun
        | cons c a => exact absurd ((List.cons.inj htext).1 ▸ List.mem_cons_self) ha
    · rw [if_neg hb, ih]
      constructor
      · intro ⟨a, more, ha, htext, hrun⟩
        refine ⟨b :: a, more, ?_, congrArg (b :: ·) htext, hrun⟩
        rw [List.mem_cons, not_or]
        exact ⟨Ne.symm hb, ha⟩
      · intro ⟨a, more, ha, htext, hrun⟩
        cases a with
        | nil => exact absurd (List.cons.inj htext).1 hb
        | cons c a =>
          exact ⟨a, more, fun h => ha (List.mem_cons_of_mem _ h), (List.cons.inj htext).2, hrun⟩

/-- A comment ends with its second hyphen, if `>` is next. -/
def CommentEnds (text rest : List Byte) : Prop :=
  ∃ a b, HYPHEN ∉ a ∧ HYPHEN ∉ b ∧ text = a ++ HYPHEN :: (b ++ HYPHEN :: GREATER :: rest)

theorem readCommentTail_iff : readCommentTail 0 text = .ok (some rest) ↔ CommentEnds text rest := by
  have hsecond (more : List Byte) : readCommentTail 1 more = .ok (some rest) ↔
      ∃ b, HYPHEN ∉ b ∧ more = b ++ HYPHEN :: GREATER :: rest := by
    rw [readCommentTail_next (by decide)]
    constructor
    · intro ⟨b, after, hb, hmore, hrun⟩
      have hlast : readCommentTail 2 after = .ok (some rest) := hrun
      rw [readCommentTail_two.mp hlast] at hmore
      exact ⟨b, hb, hmore⟩
    · intro ⟨b, hb, hmore⟩
      exact ⟨b, _, hb, hmore, readCommentTail_two.mpr rfl⟩
  rw [readCommentTail_next (by decide)]
  constructor
  · intro ⟨a, more, ha, htext, hrun⟩
    obtain ⟨b, hb, hmore⟩ := (hsecond more).mp hrun
    rw [hmore] at htext
    exact ⟨a, b, ha, hb, htext⟩
  · intro ⟨a, b, ha, hb, htext⟩
    exact ⟨a, _, ha, htext, (hsecond _).mpr ⟨b, hb, rfl⟩⟩

end Comments

section Scanning

variable {p : Byte → Bool} {type : TokenType} {firstChar : Byte}

/-- What is made of the characters that were read, by what is behind them. -/
def tokenOf (type : TokenType) (bytes : List Byte) : List Byte → XMLToken × List Byte
  | [] => ({ type := .EOF }, [])
  | c :: rest =>
    if c = 0 then ({ type := .BROKEN }, rest)
    else ({ type, bytes := some (.ofBytes bytes) }, c :: rest)

/-- All characters of the kind are read, if there is room for them. -/
theorem readWhile_eq (hp : p 0 = false) {bytes : List Byte} (hbytes : bytes.length ≤ BAOS_MAX)
    (text : List Byte) : readWhile p type bytes text =
      if bytes.length + (text.takeWhile p).length ≤ BAOS_MAX then
        .ok (tokenOf type (bytes ++ text.takeWhile p) (text.dropWhile p))
      else .error .outOfBounds := by
  induction text generalizing bytes with
  | nil =>
    rw [List.takeWhile_nil, List.dropWhile_nil, List.append_nil, List.length_nil, Nat.add_zero,
      if_pos hbytes]
    rfl
  | cons b text ih =>
    rw [readWhile]
    by_cases hb : b = 0
    · have hstop : ¬p b := by
        rw [hb, hp]
        exact Bool.false_ne_true
      rw [if_pos hb, List.takeWhile_cons_of_neg hstop, List.dropWhile_cons_of_neg hstop,
        List.append_nil, List.length_nil, Nat.add_zero, if_pos hbytes, tokenOf, if_pos hb]
      rfl
    · rw [if_neg hb]
      by_cases hgoes : p b
      · rw [if_pos hgoes, List.takeWhile_cons_of_pos hgoes, List.dropWhile_cons_of_pos hgoes,
          List.length_cons]
        by_cases hroom : bytes.length < BAOS_MAX
        · have hlength : (bytes ++ [b]).length = bytes.length + 1 := List.length_append
          have hassoc : bytes.length + 1 + (text.takeWhile p).length =
              bytes.length + ((text.takeWhile p).length + 1) := by omega
          rw [writeBAOS_room hroom, Run.ok_bind, ih (by omega), hlength, hassoc, List.append_assoc,
            List.singleton_append]
        · rw [writeBAOS_full hroom, if_neg (by omega)]
          rfl
      · rw [if_neg hgoes, List.takeWhile_cons_of_neg hgoes, List.dropWhile_cons_of_neg hgoes,
          List.append_nil, List.length_nil, Nat.add_zero, if_pos hbytes, tokenOf, if_neg hb]
        rfl

def inValue (firstChar : Byte) (b : Byte) : Bool := b ≠ 0 && b ≠ firstChar

/-- What is made of the characters of a value, if it is ended. -/
def valueOf (bytes : List Byte) : List Byte → Option (XMLToken × List Byte)
  | [] => none
  | b :: rest =>
    if b = 0 then none else some ({ type := .ATTR_VALUE, bytes := some (.ofBytes bytes) }, rest)

/-- A value is read up to the character that it started with, if there is room for it. -/
theorem readValue_eq {bytes : List Byte} (hbytes : bytes.length ≤ BAOS_MAX)
    (text : List Byte) : readValue firstChar bytes text =
      if bytes.length + (text.takeWhile (inValue firstChar)).length ≤ BAOS_MAX then
        .ok (valueOf (bytes ++ text.takeWhile (inValue firstChar))
          (text.dropWhile (inValue firstChar)))
      else .error .outOfBounds := by
  induction text generalizing bytes with
  | nil =>
    rw [List.takeWhile_nil, List.dropWhile_nil, List.append_nil, List.length_nil, Nat.add_zero,
      if_pos hbytes]
    rfl
  | cons b text ih =>
    rw [readValue]
    by_cases hb : b = 0
    · have hstop : ¬inValue firstChar b := by
        rw [hb]
        exact Bool.false_ne_true
      rw [if_pos hb, List.takeWhile_cons_of_neg hstop, List.dropWhile_cons_of_neg hstop,
        List.append_nil, List.length_nil, Nat.add_zero, if_pos hbytes, valueOf, if_pos hb]
      rfl
    · rw [if_neg hb]
      by_cases hend : b = firstChar
      · have hstop : ¬inValue firstChar b := by
          rw [hend]
          simp [inValue]
        rw [if_pos hend, List.takeWhile_cons_of_neg hstop, List.dropWhile_cons_of_neg hstop,
          List.append_nil, List.length_nil, Nat.add_zero, if_pos hbytes, valueOf, if_neg hb]
        rfl
      · have hgoes : inValue firstChar b := by
          unfold inValue
          rw [decide_eq_true hb, decide_eq_true hend]
          rfl
        rw [if_neg hend, List.takeWhile_cons_of_pos hgoes, List.dropWhile_cons_of_pos hgoes,
          List.length_cons]
        by_cases hroom : bytes.length < BAOS_MAX
        · have hlength : (bytes ++ [b]).length = bytes.length + 1 := List.length_append
          have hassoc : bytes.length + 1 + (text.takeWhile (inValue firstChar)).length =
              bytes.length + ((text.takeWhile (inValue firstChar)).length + 1) := by omega
          rw [writeBAOS_room hroom, Run.ok_bind, ih (by omega), hlength, hassoc, List.append_assoc,
            List.singleton_append]
        · rw [writeBAOS_full hroom, if_neg (by omega)]
          rfl

/-- There is room for a text and for the sequences in it, where a sequence has begun with
`charSequence` and so many characters have been written. -/
def TextFits (tokenState : TokenState) (charSequence : List Byte) (count : ℕ) : List Byte → Prop
  | [] => True
  | b :: input =>
    if b = 0 ∨ b = LESS then True
    else if b = AMPERSAND then
      tokenState = .NORMAL → TextFits .CHAR [AMPERSAND] count input
    else if b = SEMICOLON ∧ tokenState = .CHAR then
      charSequence.length < XMLPARSER_CHAR_SEQUENCE_MAX ∧
        (entity charSequence ≠ none → count < BAOS_MAX ∧ TextFits .NORMAL charSequence (count + 1) input)
    else if tokenState = .CHAR then
      charSequence.length < XMLPARSER_CHAR_SEQUENCE_MAX ∧
        TextFits tokenState (charSequence ++ [b]) count input
    else count < BAOS_MAX ∧ TextFits tokenState charSequence (count + 1) input

theorem readText_iff (tokenState : TokenState) (charSequence bytes text : List Byte) :
    (∃ result, readText tokenState charSequence bytes text = .ok result) ↔
      TextFits tokenState charSequence bytes.length text := by
  induction text generalizing tokenState charSequence bytes with
  | nil => exact iff_of_true ⟨_, rfl⟩ trivial
  | cons b text ih =>
    have hone (c : Byte) : (bytes ++ [c]).length = bytes.length + 1 := List.length_append
    rw [readText, TextFits]
    by_cases hzero : b = 0
    · rw [if_pos hzero, if_pos (.inl hzero)]
      exact iff_of_true ⟨_, rfl⟩ trivial
    by_cases hless : b = LESS
    · rw [if_neg hzero, if_pos hless, if_pos (.inr hless)]
      exact iff_of_true ⟨_, rfl⟩ trivial
    rw [if_neg hzero, if_neg hless, if_neg (not_or.mpr ⟨hzero, hless⟩)]
    by_cases hampersand : b = AMPERSAND
    · rw [if_pos hampersand, if_pos hampersand]
      by_cases hnormal : tokenState = .NORMAL
      · rw [if_pos hnormal, ih]
        exact ⟨fun h _ => h, fun h => h hnormal⟩
      · rw [if_neg hnormal]
        exact iff_of_true ⟨_, rfl⟩ fun h => absurd h hnormal
    rw [if_neg hampersand, if_neg hampersand]
    by_cases hsemicolon : b = SEMICOLON ∧ tokenState = .CHAR
    · rw [if_pos hsemicolon, if_pos hsemicolon]
      by_cases hroom : charSequence.length < XMLPARSER_CHAR_SEQUENCE_MAX
      · rw [storeChar_room hroom, Run.ok_bind, and_iff_right hroom]
        cases hentity : entity charSequence with
        | none => exact iff_of_true ⟨_, rfl⟩ fun h => absurd rfl h
        | some c =>
          dsimp only
          by_cases hfits : bytes.length < BAOS_MAX
          · rw [writeBAOS_room hfits, Run.ok_bind, ih, hone]
            exact ⟨fun h _ => ⟨hfits, h⟩, fun h => (h nofun).2⟩
          · rw [writeBAOS_full hfits]
            apply iff_of_false
            · intro ⟨result, hrun⟩
              cases hrun
            · exact fun h => hfits (h nofun).1
      · rw [storeChar_full hroom]
        apply iff_of_false
        · intro ⟨result, hrun⟩
          cases hrun
        · exact fun h => hroom h.1
    rw [if_neg hsemicolon, if_neg hsemicolon]
    by_cases hchar : tokenState = .CHAR
    · rw [if_pos hchar, if_pos hchar]
      by_cases hroom : charSequence.length < XMLPARSER_CHAR_SEQUENCE_MAX
      · rw [storeChar_room hroom, Run.ok_bind, and_iff_right hroom, ih]
      · rw [storeChar_full hroom]
        apply iff_of_false
        · intro ⟨result, hrun⟩
          cases hrun
        · exact fun h => hroom h.1
    · rw [if_neg hchar, if_neg hchar]
      by_cases hfits : bytes.length < BAOS_MAX
      · rw [writeBAOS_room hfits, Run.ok_bind, ih, hone, and_iff_right hfits]
      · rw [writeBAOS_full hfits]
        apply iff_of_false
        · intro ⟨result, hrun⟩
          cases hrun
        · exact fun h => hfits h.1

theorem readText_cases {tokenState : TokenState} {charSequence bytes text : List Byte}
    {t : XMLToken} {after : XmlParser}
    (hrun : readText tokenState charSequence bytes text = .ok (t, after)) :
    after.input.length ≤ text.length ∧
      (t.type = .EOF ∨ t.type = .BROKEN ∨ t.type = .PCDATA ∧ t.bytes.isSome) := by
  induction text generalizing tokenState charSequence bytes with
  | nil =>
    cases hrun
    exact ⟨le_rfl, .inl rfl⟩
  | cons b text ih =>
    rw [readText] at hrun
    have hmore {length : ℕ} (h : length ≤ text.length) : length ≤ (b :: text).length :=
      h.trans (Nat.le_succ _)
    split_ifs at hrun
    · cases hrun
      exact ⟨hmore le_rfl, .inr (.inl rfl)⟩
    · cases hrun
      exact ⟨le_rfl, .inr (.inr ⟨rfl, rfl⟩)⟩
    · exact (ih hrun).imp_left hmore
    · cases hrun
      exact ⟨hmore le_rfl, .inr (.inl rfl)⟩
    · obtain ⟨_, -, hrest⟩ := Run.bind_eq_ok.mp hrun
      cases hentity : entity charSequence with
      | none =>
        rw [hentity] at hrest
        cases hrest
        exact ⟨hmore le_rfl, .inr (.inl rfl)⟩
      | some c =>
        rw [hentity] at hrest
        obtain ⟨_, -, hrest⟩ := Run.bind_eq_ok.mp hrest
        exact (ih hrest).imp_left hmore
    · obtain ⟨_, -, hrest⟩ := Run.bind_eq_ok.mp hrun
      exact (ih hrest).imp_left hmore
    · obtain ⟨_, -, hrest⟩ := Run.bind_eq_ok.mp hrun
      exact (ih hrest).imp_left hmore

theorem tokenOf_cases (type : TokenType) (bytes rest : List Byte) :
    (tokenOf type bytes rest).2.length ≤ rest.length ∧
      ((tokenOf type bytes rest).1.type = .EOF ∨ (tokenOf type bytes rest).1.type = .BROKEN ∨
        (tokenOf type bytes rest).1.type = type ∧ (tokenOf type bytes rest).1.bytes.isSome) := by
  cases rest with
  | nil => exact ⟨le_rfl, .inl rfl⟩
  | cons c rest =>
    rw [tokenOf]
    split_ifs
    · exact ⟨Nat.le_succ _, .inr (.inl rfl)⟩
    · exact ⟨le_rfl, .inr (.inr ⟨rfl, rfl⟩)⟩

end Scanning

section Tokens

variable {p : XmlParser} {t : XMLToken}

def HasText (type : TokenType) : Prop := type = .ID ∨ type = .PCDATA ∨ type = .ATTR_VALUE

instance : DecidablePred HasText := fun _ => inferInstanceAs (Decidable (_ ∨ _ ∨ _))

theorem bytes_of_noText {type : TokenType} (ht : t.type = type) (hno : ¬HasText type) :
    HasText t.type → t.bytes.isSome := by
  intro htext
  rw [ht] at htext
  exact absurd htext hno

/-- A token with characters that are read for it, but for the end of the input. -/
structure Read (p : XmlParser) (t : XMLToken) (after : XmlParser) : Prop where
  le : after.input.length ≤ p.input.length
  lt : t.type ≠ .EOF → after.input.length < p.input.length
  bytes : HasText t.type → t.bytes.isSome

theorem readOpen_cases {input : List Byte} {after : XmlParser}
    (hrun : readOpen p input = .ok (some (t, after))) :
    after.input.length ≤ input.length ∧
      (t.type = .START_OPEN ∨ t.type = .END_OPEN ∨ t.type = .COMMENT) := by
  unfold readOpen at hrun
  obtain _ | ⟨b, more⟩ := input
  · cases hrun
    exact ⟨le_rfl, .inl rfl⟩
  dsimp only at hrun
  split_ifs at hrun
  · cases hrun
    exact ⟨Nat.le_succ _, .inr (.inl rfl)⟩
  · obtain _ | ⟨b₁, _ | ⟨b₂, text⟩⟩ := more
    · cases hrun
    · cases hrun
    · dsimp only at hrun
      split_ifs at hrun
      · obtain ⟨result, htail, hrest⟩ := Run.bind_eq_ok.mp hrun
        cases result with
        | none => cases hrest
        | some rest =>
          obtain ⟨a, c, -, -, htext⟩ := readCommentTail_iff.mp htail
          cases hrest
          refine ⟨?_, .inr (.inr rfl)⟩
          rw [htext]
          simp only [List.length_cons, List.length_append]
          omega
      · cases hrun
  · cases hrun
    exact ⟨le_rfl, .inl rfl⟩

theorem length_dropWhile_le (q : Byte → Bool) (text : List Byte) :
    (text.dropWhile q).length ≤ text.length :=
  (List.dropWhile_suffix q).length_le

theorem readWhile_cases {q : Byte → Bool} {type : TokenType} (hq : q 0 = false) (bytes : List Byte)
    (hbytes : bytes.length ≤ BAOS_MAX) {input : List Byte} {after : XmlParser}
    (hread : (do let (t, input) ← readWhile q type bytes input
                 return some (t, { p with input }) : Run (Option (XMLToken × XmlParser))) =
      .ok (some (t, after))) : after.input.length ≤ input.length ∧
    (t.type = .EOF ∨ t.type = .BROKEN ∨ t.type = type ∧ t.bytes.isSome) := by
  rw [readWhile_eq hq hbytes] at hread
  split_ifs at hread
  · have hcases := tokenOf_cases type (bytes ++ input.takeWhile q) (input.dropWhile q)
    rw [Run.ok_bind] at hread
    cases hread
    exact ⟨hcases.1.trans (length_dropWhile_le q input), hcases.2⟩
  · cases hread

theorem readInTag_cases {b : Byte} {input : List Byte} {after : XmlParser}
    (hrun : readInTag p b input = .ok (some (t, after))) :
    after.input.length ≤ input.length ∧
      (HasText t.type → t.bytes.isSome) := by
  unfold readInTag at hrun
  split_ifs at hrun
  · obtain ⟨bytes, hfirst, hrest⟩ := Run.bind_eq_ok.mp hrun
    have hone : writeBAOS [] b = .ok [b] := writeBAOS_room (by decide)
    rw [hone] at hfirst
    cases hfirst
    obtain ⟨hle, heof | hbroken | hid⟩ := readWhile_cases (by decide) [b] (by rw [List.length_singleton]; decide) hrest
    · exact ⟨hle, bytes_of_noText heof (by decide)⟩
    · exact ⟨hle, bytes_of_noText hbroken (by decide)⟩
    · exact ⟨hle, fun _ => hid.2⟩
  · cases hrun
    exact ⟨le_rfl, by decide⟩
  · rw [readValue_eq (Nat.zero_le _)] at hrun
    split_ifs at hrun
    · rw [Run.ok_bind] at hrun
      have hle := length_dropWhile_le (inValue b) input
      cases hrest : input.dropWhile (inValue b) with
      | nil =>
        rw [hrest] at hrun
        cases hrun
      | cons c rest =>
        rw [hrest, List.length_cons] at hle
        rw [hrest, valueOf] at hrun
        split_ifs at hrun
        · cases hrun
        · cases hrun
          exact ⟨Nat.le_of_succ_le hle, fun _ => rfl⟩
    · cases hrun
  · obtain ⟨hle, heof | hbroken | hblank⟩ := readWhile_cases (by decide) [] (Nat.zero_le _) hrun
    · exact ⟨hle, bytes_of_noText heof (by decide)⟩
    · exact ⟨hle, bytes_of_noText hbroken (by decide)⟩
    · exact ⟨hle, fun _ => hblank.2⟩
  · cases hrun

theorem getXMLToken_read {after : XmlParser} (hrun : getXMLToken p = .ok (some (t, after))) :
    Read p t after := by
  unfold getXMLToken at hrun
  have hshorter {b : Byte} {input : List Byte} (hinput : p.input = b :: input)
      (hle : after.input.length ≤ input.length)
      (hbytes : HasText t.type → t.bytes.isSome) :
      Read p t after := by
    have hlt : after.input.length < p.input.length := by
      rw [hinput, List.length_cons]
      omega
    exact ⟨hlt.le, fun _ => hlt, hbytes⟩
  cases hinput : p.input with
  | nil =>
    rw [hinput] at hrun
    cases hrun
    exact ⟨le_rfl, fun h => absurd rfl h, by decide⟩
  | cons b input =>
    rw [hinput] at hrun
    dsimp only at hrun
    split_ifs at hrun
    · obtain ⟨hle, htype⟩ := readOpen_cases hrun
      apply hshorter hinput hle
      obtain htype | htype | htype := htype
      · exact bytes_of_noText htype (by decide)
      · exact bytes_of_noText htype (by decide)
      · exact bytes_of_noText htype (by decide)
    · cases input with
      | nil => cases hrun
      | cons c rest =>
        dsimp only at hrun
        split_ifs at hrun
        · cases hrun
          exact hshorter hinput (Nat.le_succ _) (by decide)
        · cases hrun
    · cases hrun
      exact hshorter hinput le_rfl (by decide)
    · obtain ⟨hle, hbytes⟩ := readInTag_cases hrun
      exact hshorter hinput hle hbytes
    · obtain ⟨bytes, -, hrest⟩ := Run.bind_eq_ok.mp hrun
      obtain ⟨result, htext, hrest⟩ := Run.bind_eq_ok.mp hrest
      cases hrest
      obtain ⟨hle, heof | hbroken | htext⟩ := readText_cases htext
      · exact hshorter hinput hle (bytes_of_noText heof (by decide))
      · exact hshorter hinput hle (bytes_of_noText hbroken (by decide))
      · exact hshorter hinput hle fun _ => htext.2

end Tokens

section Skipping

variable {p after : XmlParser} {t : XMLToken}

def Skips (p after : XmlParser) : Prop :=
  ∃ t, getXMLToken p = .ok (some (t, after)) ∧ (t.type = .WHITESPACE ∨ t.type = .COMMENT)

theorem getTokenNoWS_read (hrun : getTokenNoWS p = .ok (t, after)) :
    Read p t after ∧ t.type ≠ .WHITESPACE ∧ t.type ≠ .COMMENT := by
  unfold getTokenNoWS at hrun
  generalize p.input.length + 1 = fuel at hrun
  induction fuel generalizing p with
  | zero => cases hrun
  | succ fuel ih =>
    rw [getTokenNoWSFrom] at hrun
    obtain ⟨result, htoken, hrest⟩ := Run.bind_eq_ok.mp hrun
    obtain _ | ⟨t', next⟩ := result
    · cases hrest
    · dsimp only at hrest
      have hread := getXMLToken_read htoken
      split_ifs at hrest with htype
      · cases hrest
        exact ⟨hread, htype⟩
      · obtain ⟨hmore, htype⟩ := ih hrest
        refine ⟨⟨hmore.le.trans hread.le, ?_, hmore.bytes⟩, htype⟩
        exact fun heof => (hmore.lt heof).trans_le hread.le

end Skipping

end Xml
end ZoweCommon
