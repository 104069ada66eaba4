import ZoweCommon.Jq.GrammarParser

/-! A parse that succeeds has recorded the steps of a derivation of what it has read. -/
namespace ZoweCommon
namespace Jq

open Exec

inductive GSymbol
  | ref (ref : GRuleRef)
  | all (keyed : Bool) (refs : List GRuleRef)

section
variable {σ : Type} (tokenizer : AbstractTokenizer σ) (rules : List GRule)

/-- The step that opens the value of a rule, and what the value is built of. -/
inductive GRule.Body (rule : GRule) : GBuildStep → GSymbol → Prop
  | sequence (htype : rule.type = .G_SEQ) : Body rule (.BUILD_OBJECT rule) (.all true rule.refs)
  | alternate {choice : GRuleRef} (htype : rule.type = .G_ALT) (hchoice : choice ∈ rule.refs) :
    Body rule (.BUILD_ALT rule (some choice)) (.ref choice)
  | repeated {ref : GRuleRef} (n : ℕ) (htype : rule.type = .G_STAR)
      (href : rule.refs.head? = some ref) :
    Body rule (.BUILD_ARRAY rule) (.all false (List.replicate n ref))

/-- What the rules derive from the answers of a tokenizer, with the steps that build it. A tokenizer
that fails stands for whatever token is asked for. -/
inductive Derives : GSymbol → ℕ → ℕ → List GBuildStep → Prop
  | token {s s' : σ} {t : GToken} {pos : ℕ} (h : tokenizer.nextToken s pos = .ok (t, s')) :
    Derives (.ref (.token t.tokenID)) pos t.nextPos [tokenValue tokenizer t]
  | stopped {s s' : σ} {t : GToken} {id : ℤ} {pos : ℕ}
      (h : tokenizer.nextToken s pos = .ok (t, s')) (ht : t.tokenID = NO_VALID_TOKEN) :
    Derives (.ref (.token id)) pos 0x7FFFFFFF []
  | rule {rule : GRule} {id : ℤ} {opening : GBuildStep} {symbol : GSymbol} {pos pos' : ℕ}
      {steps : List GBuildStep} (hrule : getRule rules id = some rule)
      (hbody : rule.Body opening symbol) (h : Derives symbol pos pos' steps) :
    Derives (.ref (.rule id)) pos pos' (opening :: steps ++ [.BUILD_POP])
  | nil {keyed : Bool} {pos : ℕ} : Derives (.all keyed []) pos pos []
  | cons {keyed : Bool} {ref : GRuleRef} {refs : List GRuleRef} {pos mid pos' : ℕ}
      {steps more : List GBuildStep} (h : Derives (.ref ref) pos mid steps)
      (hrest : Derives (.all keyed refs) mid pos' more) :
    Derives (.all keyed (ref :: refs)) pos pos'
      ((if keyed then [.BUILD_KEY ref] else []) ++ steps ++ more)

/-- How a call ends: it has recorded the steps that its position comes with, or it fails without a
resume point, or it jumps to the one it has and leaves the steps from before as they were. -/
def EndsAs (p : ℕ → List GBuildStep → Prop) (resumable : Bool) (before : List GBuildStep) :
    Ended σ → Prop
  | (.returned (some pos), ctx) => ∃ steps, p pos steps ∧ ctx.buildSteps = record before steps
  | (.returned none, _) => resumable = false
  | (.backtracked, ctx) => resumable = true ∧ ∃ steps, ctx.buildSteps = record before steps

/-- Steps that derive a rule once they are closed. -/
def Unclosed (id : ℤ) (pos pos' : ℕ) (steps : List GBuildStep) : Prop :=
  Derives tokenizer rules (.ref (.rule id)) pos pos' (steps ++ [.BUILD_POP])

def SubDerives (sub : RunRule σ) : Prop :=
  ∀ id pos resumable ctx, Returns (sub id pos resumable ctx)
    (EndsAs (Derives tokenizer rules (.ref (.rule id)) pos) resumable ctx.buildSteps)

/-- A token that does not match has recorded nothing. -/
def Unmatched (before : List GBuildStep) (out : Ended σ) : Prop :=
  out.1 = .returned none ∧ out.2.buildSteps = before

/-- A rule that the parser knows how to run. -/
def GRule.Runs (rule : GRule) : Prop :=
  match rule.type with
  | .G_SEQ | .G_STAR => True
  | .G_ALT => rule.refs ≠ []
  | .G_PLUS => False

end

section
variable {σ : Type} {tokenizer : AbstractTokenizer σ} {rules : List GRule}
variable {p p' : ℕ → List GBuildStep → Prop} {resumable : Bool} {before steps : List GBuildStep}

theorem record_record (steps more rest : List GBuildStep) :
    record (record steps more) rest = record steps (more ++ rest) := by
  rw [record, record, record, ← List.append_assoc]
  generalize steps ++ more = taken
  rw [List.take_append, List.take_append, List.take_take, min_self, List.length_take]
  congr 2
  omega

theorem length_record_le (steps more : List GBuildStep) :
    (record steps more).length ≤ MAX_BUILD_STEPS := List.length_take_le _ _

theorem record_nil (h : steps.length ≤ MAX_BUILD_STEPS) : record steps [] = steps := by
  rw [record, List.append_nil, List.take_of_length_le h]

theorem EndsAs.after {out : Ended σ} (h : EndsAs p resumable (record before steps) out)
    (hp : ∀ pos more, p pos more → p' pos (steps ++ more)) : EndsAs p' resumable before out := by
  match out, h with
  | (.returned (some pos), _), ⟨more, hmore, hctx⟩ =>
    exact ⟨steps ++ more, hp pos more hmore, hctx.trans (record_record ..)⟩
  | (.returned none, _), h => exact h
  | (.backtracked, _), ⟨hresumable, more, hctx⟩ =>
    exact ⟨hresumable, steps ++ more, hctx.trans (record_record ..)⟩

theorem EndsAs.pop {out : Ended σ} {id : ℤ} {pos : ℕ}
    (h : EndsAs (Unclosed tokenizer rules id pos) resumable before out) :
    EndsAs (Derives tokenizer rules (.ref (.rule id)) pos) resumable before (buildPop out) := by
  match out, h with
  | (.returned (some pos'), ctx), ⟨steps, hsteps, hctx⟩ =>
    refine ⟨_, hsteps, ?_⟩
    rw [← record_record, ← hctx]
    rfl
  | (.returned none, _), h => exact h
  | (.backtracked, _), h => exact h

theorem EndsAs.fail {ctx : GParseContext σ} (h : ctx.buildSteps = record before steps) :
    EndsAs p resumable before (Jq.fail resumable ctx) := by
  cases resumable with
  | false => rfl
  | true => exact ⟨rfl, steps, h⟩

theorem runTokenMatch_ends (rules : List GRule) (tokenID : ℤ) (pos : ℕ) {ctx : GParseContext σ}
    (hctx : ctx.buildSteps.length ≤ MAX_BUILD_STEPS) :
    Returns (runTokenMatch tokenizer tokenID pos ctx) fun out =>
      (∀ resumable, EndsAs (Derives tokenizer rules (.ref (.token tokenID)) pos) resumable
        ctx.buildSteps out) ∨ Unmatched ctx.buildSteps out := by
  intro out hout
  obtain ⟨⟨t, state⟩, hnext, hout⟩ := bind_eq_ok.mp hout
  dsimp only at hout
  split_ifs at hout with hmatch hroom hinvalid
  · cases hout
    subst hmatch
    exact .inl fun _ => ⟨_, .token hnext, rfl⟩
  · cases hout
    exact .inl fun _ => ⟨[], .stopped hnext hinvalid, (record_nil hctx).symm⟩
  · cases hout
    exact .inr ⟨rfl, rfl⟩

section
variable {sub : RunRule σ} (hsub : SubDerives tokenizer rules sub)
include hsub

theorem runRef_ends (ref : GRuleRef) (pos : ℕ) {ctx : GParseContext σ}
    (hctx : ctx.buildSteps.length ≤ MAX_BUILD_STEPS) :
    Returns (runRef tokenizer sub ref pos resumable ctx) fun out =>
      EndsAs (Derives tokenizer rules (.ref ref) pos) resumable ctx.buildSteps out ∨
        Unmatched ctx.buildSteps out := by
  intro out hout
  cases ref with
  | token tokenID => exact (runTokenMatch_ends rules tokenID pos hctx out hout).imp_left fun h => h _
  | rule id => exact .inl (hsub id pos resumable ctx out hout)

theorem runSeq_ends (refs : List GRuleRef) (pos : ℕ) {ctx : GParseContext σ}
    (hctx : ctx.buildSteps.length ≤ MAX_BUILD_STEPS) :
    Returns (runSeq tokenizer sub resumable refs pos ctx)
      (EndsAs (Derives tokenizer rules (.all true refs) pos) resumable ctx.buildSteps) := by
  induction refs generalizing pos ctx with
  | nil => exact .ok ⟨[], .nil, (record_nil hctx).symm⟩
  | cons ref refs ih =>
    refine (runRef_ends hsub ref pos (length_record_le _ _)).bind fun out hout => ?_
    match out, hout with
    | (.returned (some mid), ctx'), .inl ⟨steps, hsteps, hctx'⟩ =>
      intro out hout
      have hrest := ih mid (hctx' ▸ length_record_le _ _) out hout
      rw [hctx', makeBuildStep, record_record] at hrest
      exact hrest.after fun pos' more hmore => .cons hsteps hmore
    | (.returned none, ctx'), .inl h => exact .ok (h ▸ rfl)
    | (.returned none, ctx'), .inr ⟨_, hctx'⟩ => exact .ok (.fail hctx')
    | (.backtracked, ctx'), .inl ⟨hresumable, steps, hctx'⟩ =>
      exact .ok ⟨hresumable, _, hctx'.trans (record_record ..)⟩

theorem runChoices_ends {rule : GRule} {id : ℤ} (pos : ℕ) (hrule : getRule rules id = some rule)
    (htype : rule.type = .G_ALT) (hbefore : before.length < MAX_BUILD_STEPS)
    (refs : List GRuleRef) (hrefs : ∀ ref ∈ refs, ref ∈ rule.refs) (hne : refs ≠ [])
    (ctx : GParseContext σ) :
    Returns (runChoices tokenizer sub rule resumable pos before refs ctx)
      (EndsAs (Unclosed tokenizer rules id pos) resumable before) := by
  induction refs generalizing ctx with
  | nil => exact absurd rfl hne
  | cons ref refs ih =>
    have hroom (step : GBuildStep) : (before ++ [step]).length ≤ MAX_BUILD_STEPS := by
      simpa using hbefore
    have hstep : before ++ [_] = record before [.BUILD_ALT rule (some ref)] :=
      (List.take_of_length_le (hroom _)).symm
    have hnext (hrest : refs ≠ []) := ih (fun r hr => hrefs r (.tail _ hr)) hrest
    have hchosen {pos' : ℕ} {steps : List GBuildStep}
        (h : Derives tokenizer rules (.ref ref) pos pos' steps) :
        Unclosed tokenizer rules id pos pos' ([.BUILD_ALT rule (some ref)] ++ steps) :=
      .rule hrule (.alternate htype (hrefs _ (.head _))) h
    cases ref with
    | token tokenID =>
      refine (runTokenMatch_ends rules tokenID pos (hroom _)).bind fun out hout => ?_
      simp only [hstep] at hout
      match out, hout with
      | (.returned (some mid), ctx'), .inl h =>
        obtain ⟨steps, hsteps, hctx'⟩ := h true
        exact .ok ⟨_, hchosen hsteps, hctx'.trans (record_record ..)⟩
      | (.returned none, ctx'), .inl h => exact Bool.noConfusion (h true)
      | (.backtracked, ctx'), .inl h => exact Bool.noConfusion (h false).1
      | (.returned none, ctx'), .inr ⟨_, hctx'⟩ =>
        cases refs with
        | nil => exact .ok (.fail hctx')
        | cons r refs => exact hnext (List.cons_ne_nil r refs) ctx'
    | rule id =>
      refine (hsub id pos _ _).bind fun out hout => ?_
      simp only [hstep] at hout
      match out, hout with
      | (.returned (some mid), ctx'), ⟨steps, hsteps, hctx'⟩ =>
        exact .ok ⟨_, hchosen hsteps, hctx'.trans (record_record ..)⟩
      | (.returned none, ctx'), h => exact .ok (Bool.or_eq_false_iff.mp h).2
      | (.backtracked, ctx'), ⟨hresumable, steps, hctx'⟩ =>
        cases refs with
        | nil => exact .ok ⟨hresumable, _, hctx'.trans (record_record ..)⟩
        | cons r refs => exact hnext (List.cons_ne_nil r refs) ctx'

theorem runAlt_ends {rule : GRule} {id : ℤ} (pos : ℕ) (hrule : getRule rules id = some rule)
    (htype : rule.type = .G_ALT) (hne : rule.refs ≠ []) (ctx : GParseContext σ) :
    Returns (runAlt tokenizer sub rule resumable pos ctx)
      (EndsAs (Unclosed tokenizer rules id pos) resumable ctx.buildSteps) := by
  rw [runAlt]
  split_ifs with hroom hempty
  · exact runChoices_ends hsub pos hrule htype hroom rule.refs (fun _ h => h) hne _
  · exact absurd (List.isEmpty_iff.mp hempty) hne
  · exact .error _ _

theorem runStar_ends (ref : GRuleRef) (resumable : Bool) (fuel pos : ℕ) {ctx : GParseContext σ}
    (hctx : ctx.buildSteps.length ≤ MAX_BUILD_STEPS) :
    Returns (runStar tokenizer sub ref fuel pos ctx)
      (EndsAs (fun pos' steps => ∃ n,
        Derives tokenizer rules (.all false (List.replicate n ref)) pos pos' steps) resumable
        ctx.buildSteps) := by
  induction fuel generalizing pos ctx with
  | zero => exact .error _ _
  | succ fuel ih =>
    refine (runRef_ends hsub ref pos hctx).bind fun out hout => ?_
    match out, hout with
    | (.returned (some mid), ctx'), .inl ⟨steps, hsteps, hctx'⟩ =>
      intro out hout
      have hrest := ih mid (hctx' ▸ length_record_le _ _) out hout
      rw [hctx'] at hrest
      exact hrest.after fun pos' more ⟨n, hmore⟩ => ⟨n + 1, .cons hsteps hmore⟩
    | (.returned none, ctx'), .inl h => exact Bool.noConfusion h
    | (.returned none, ctx'), .inr ⟨_, hctx'⟩ =>
      exact .ok ⟨[], ⟨0, .nil⟩, hctx'.trans (record_nil hctx).symm⟩
    | (.backtracked, ctx'), .inl ⟨_, steps, hctx'⟩ =>
      refine .ok ⟨[], ⟨0, .nil⟩, ?_⟩
      rw [record_nil hctx, hctx', record, List.take_take, min_eq_left hctx, List.take_left]

end

theorem mem_of_getRule {id : ℤ} {rule : GRule} (h : getRule rules id = some rule) :
    rule ∈ rules := by
  rw [getRule] at h
  split_ifs at h
  exact List.mem_of_find?_eq_some h

theorem parseDispatch_ends (tokenizer : AbstractTokenizer σ)
    (hrules : ∀ rule ∈ rules, rule.Runs) (fuel : ℕ) {rule : GRule} {id : ℤ}
    (hrule : getRule rules id = some rule) (pos : ℕ) (resumable : Bool) (ctx : GParseContext σ) :
    Returns (parseDispatch tokenizer rules fuel rule pos resumable ctx)
      (EndsAs (Derives tokenizer rules (.ref (.rule id)) pos) resumable ctx.buildSteps) := by
  induction fuel generalizing rule id pos resumable ctx with
  | zero => exact .error _ _
  | succ fuel ih =>
    have hsub : SubDerives tokenizer rules
        (dispatchByID rules (parseDispatch tokenizer rules fuel)) := by
      intro id pos resumable ctx
      rw [dispatchByID]
      cases hget : getRule rules id with
      | none => exact .error _ _
      | some rule => exact ih hget pos resumable ctx
    have hruns := hrules rule (mem_of_getRule hrule)
    rw [parseDispatch]
    rw [GRule.Runs] at hruns
    cases htype : rule.type with
    | G_SEQ =>
      refine (runSeq_ends hsub rule.refs pos (length_record_le _ _)).bind fun out hout => .ok ?_
      exact (hout.after fun _ _ h => .rule hrule (.sequence htype) h).pop
    | G_ALT =>
      rw [htype] at hruns
      exact (runAlt_ends hsub pos hrule htype hruns ctx).bind fun out hout => .ok hout.pop
    | G_STAR =>
      cases href : rule.refs.head? with
      | none => exact .error _ _
      | some ref =>
        refine (runStar_ends hsub ref resumable fuel pos (length_record_le _ _)).bind
          fun out hout => .ok ?_
        refine (hout.after fun _ _ hsteps => ?_).pop
        obtain ⟨n, hsteps⟩ := hsteps
        exact .rule hrule (.repeated n htype href) hsteps
    | G_PLUS =>
      rw [htype] at hruns
      exact hruns.elim

theorem gParse_derives {fuel pos : ℕ} {ruleSet : List GRuleSpec} {topRuleID : ℤ} {state : σ}
    {ctx : GParseContext σ} (hrules : makeGRules tokenizer ruleSet = some rules)
    (hruns : ∀ rule ∈ rules, rule.Runs)
    (h : gParse tokenizer fuel ruleSet topRuleID state = .ok (some pos, ctx)) :
    ∃ steps, Derives tokenizer rules (.ref (.rule topRuleID)) 0 pos steps ∧
      ctx.buildSteps = steps.take MAX_BUILD_STEPS := by
  rw [gParse, hrules] at h
  cases hrule : getRule rules topRuleID with
  | none => simp [hrule] at h
  | some top =>
    have hends := parseDispatch_ends tokenizer hruns fuel hrule 0 false ⟨state, []⟩
    simp only [hrule] at h
    split at h
    · obtain ⟨out, hout, h⟩ := bind_eq_ok.mp h
      have hout := hends out hout
      match out, hout, h with
      | (.returned (some pos'), ctx'), ⟨steps, hsteps, hctx⟩, h =>
        cases h
        exact ⟨steps, hsteps, hctx⟩
    · cases h

end

/-- The tokenizer of the parser's test, and its rules with a star, alternates and sequences. -/
def myNextToken (s : List ℤ) : AbstractTokenizer Unit where
  lowTokenID := 1
  highTokenID := 255
  nextToken _ pos := .ok (⟨s[pos]?.getD EOF_TOKEN, min (pos + 1) s.length, 0, 0⟩, ())
  isNumber _ := false

def testSet3 : List GRuleSpec :=
  [⟨.G_SEQ, 10000, [0x41, 10001, 0x44, EOF_TOKEN]⟩, ⟨.G_STAR, 10001, [10002]⟩,
    ⟨.G_ALT, 10002, [10005, 10003]⟩, ⟨.G_SEQ, 10005, [0x42, 0x42, 0x42]⟩,
    ⟨.G_SEQ, 10003, [0x45, 0x45]⟩]

theorem gParse_derives_testSet3 : ∃ rules ctx steps,
    gParse (myNextToken [0x41, 0x45, 0x45, 0x44]) 9 testSet3 10000 () = .ok (some 4, ctx) ∧
      Derives (myNextToken [0x41, 0x45, 0x45, 0x44]) rules (.ref (.rule 10000)) 0 4 steps ∧
      ctx.buildSteps = steps.take MAX_BUILD_STEPS := by
  have hrun : gParse (myNextToken [0x41, 0x45, 0x45, 0x44]) 9 testSet3 10000 () =
      .ok (some 4, _) := rfl
  have hrules : makeGRules (myNextToken [0x41, 0x45, 0x45, 0x44]) testSet3 = some _ := rfl
  obtain ⟨steps, h⟩ := gParse_derives hrules (by simp [GRule.Runs]) hrun
  exact ⟨_, _, steps, hrun, h⟩

end Jq
end ZoweCommon
