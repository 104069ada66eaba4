import ZoweCommon.Jq.Eval
import ZoweCommon.Jq.Tokenizer

/-! The parser of grammar rules, with its backtracking. -/
namespace ZoweCommon
namespace Jq

def MAX_BUILD_STEPS : ℕ := 10000

structure GToken where
  tokenID : ℤ
  nextPos : ℕ
  lastTokenStart : ℕ
  lastTokenEnd : ℕ

/-- A tokenizer may keep a state from one token to the next. -/
structure AbstractTokenizer (σ : Type) where
  lowTokenID : ℤ
  highTokenID : ℤ
  nextToken : σ → ℕ → Exec (GToken × σ)
  isNumber : ℤ → Bool

inductive GRuleType
  | G_SEQ | G_ALT | G_STAR | G_PLUS

/-- The references of a rule are those before its `G_END`; a star has one. -/
structure GRuleSpec where
  type : GRuleType
  id : ℤ
  subs : List ℤ

inductive GRuleRef
  | token (tokenID : ℤ)
  | rule (id : ℤ)

structure GRule where
  type : GRuleType
  id : ℤ
  refs : List GRuleRef

inductive GBuildStep
  | BUILD_OBJECT (rule : GRule)
  | BUILD_ARRAY (rule : GRule)
  | BUILD_ALT (rule : GRule) (altChoice : Option GRuleRef)
  | BUILD_KEY (ref : GRuleRef)
  | BUILD_STRING (valueStart valueEnd : ℕ)
  | BUILD_NUMBER (valueStart valueEnd : ℕ)
  | BUILD_POP

structure GParseContext (σ : Type) where
  tokenizer : σ
  buildSteps : List GBuildStep

/-- How a call ends: it returns, where `none` is `GPARSE_FAIL`, or it jumps to the resume point
that it was given. -/
inductive Exit
  | returned (result : Option ℕ)
  | backtracked

section
variable {σ : Type} (tokenizer : AbstractTokenizer σ)

abbrev Ended (σ : Type) := Exit × GParseContext σ

def isTokenReference (id : ℤ) : Bool :=
  id = EOF_TOKEN || (tokenizer.lowTokenID ≤ id && id ≤ tokenizer.highTokenID)

def getRule (ruleSet : List GRule) (id : ℤ) : Option GRule :=
  if id < FIRST_GRULE_ID then none else ruleSet.find? fun rule => rule.id = id

def setRuleRefArray (ruleSpecs : List GRuleSpec) (indices : List ℤ) : Option (List GRuleRef) :=
  indices.mapM fun index =>
    if isTokenReference tokenizer index then some (.token index)
    else if FIRST_GRULE_ID ≤ index ∧ ∃ spec ∈ ruleSpecs, spec.id = index then some (.rule index)
    else none

def makeGRules (ruleSpecs : List GRuleSpec) : Option (List GRule) :=
  ruleSpecs.mapM fun spec => do
    return { spec with refs := ← setRuleRefArray tokenizer ruleSpecs spec.subs }

/-- Nothing is recorded once the array is full. -/
def record (steps more : List GBuildStep) : List GBuildStep := (steps ++ more).take MAX_BUILD_STEPS

def makeBuildStep (ctx : GParseContext σ) (step : GBuildStep) : GParseContext σ :=
  { ctx with buildSteps := record ctx.buildSteps [step] }

def tokenValue (token : GToken) : GBuildStep :=
  if tokenizer.isNumber token.tokenID then .BUILD_NUMBER token.lastTokenStart token.lastTokenEnd
  else .BUILD_STRING token.lastTokenStart token.lastTokenEnd

/-- The value is stored even where there is no step for it. A tokenizer that fails is a success,
at a position behind every text. -/
def runTokenMatch (tokenID : ℤ) (pos : ℕ) (ctx : GParseContext σ) : Exec (Ended σ) := do
  let (token, state) ← tokenizer.nextToken ctx.tokenizer pos
  let ctx := { ctx with tokenizer := state }
  if token.tokenID = tokenID then
    if ctx.buildSteps.length < MAX_BUILD_STEPS then
      return (.returned (some token.nextPos), makeBuildStep ctx (tokenValue tokenizer token))
    else throw .undefinedBehaviour
  else if token.tokenID = NO_VALID_TOKEN then return (.returned (some 0x7FFFFFFF), ctx)
  else return (.returned none, ctx)

/-- How rules are parsed that others refer to: from a position, with or without a resume point. -/
abbrev RunRule (σ : Type) := ℤ → ℕ → Bool → GParseContext σ → Exec (Ended σ)

def runRef (sub : RunRule σ) (ref : GRuleRef) (pos : ℕ) (resumable : Bool)
    (ctx : GParseContext σ) : Exec (Ended σ) :=
  match ref with
  | .token tokenID => runTokenMatch tokenizer tokenID pos ctx
  | .rule id => sub id pos resumable ctx

def fail (resumable : Bool) (ctx : GParseContext σ) : Ended σ :=
  (if resumable then .backtracked else .returned none, ctx)

def runSeq (sub : RunRule σ) (resumable : Bool) :
    List GRuleRef → ℕ → GParseContext σ → Exec (Ended σ)
  | [], pos, ctx => return (.returned (some pos), ctx)
  | ref :: refs, pos, ctx => do
    match ← runRef tokenizer sub ref pos resumable (makeBuildStep ctx (.BUILD_KEY ref)) with
    | (.returned (some pos), ctx) => runSeq sub resumable refs pos ctx
    | (.returned none, ctx) => return fail resumable ctx
    | (.backtracked, ctx) => return (.backtracked, ctx)

/-- The alternatives that are left. A token that does not match goes on to the next one, and so does
a rule that jumps; a rule that fails is the end of it. -/
def runChoices (sub : RunRule σ) (rule : GRule) (resumable : Bool) (pos : ℕ)
    (before : List GBuildStep) : List GRuleRef → GParseContext σ → Exec (Ended σ)
  | [], ctx => return (.returned none, ctx)
  | ref :: refs, ctx => do
    let ctx := { ctx with buildSteps := before ++ [.BUILD_ALT rule (some ref)] }
    match ref, ← runRef tokenizer sub ref pos (!refs.isEmpty || resumable) ctx with
    | .token _, (.returned none, ctx) =>
      if refs.isEmpty then return fail resumable ctx
      else runChoices sub rule resumable pos before refs ctx
    | .rule _, (.backtracked, ctx) =>
      if refs.isEmpty then return (.backtracked, ctx)
      else runChoices sub rule resumable pos before refs ctx
    | _, result => return result

/-- The choice is stored even where there is no step for it. -/
def runAlt (sub : RunRule σ) (rule : GRule) (resumable : Bool) (pos : ℕ) (ctx : GParseContext σ) :
    Exec (Ended σ) :=
  if ctx.buildSteps.length < MAX_BUILD_STEPS then
    runChoices tokenizer sub rule resumable pos ctx.buildSteps rule.refs
      (makeBuildStep ctx (.BUILD_ALT rule none))
  else if rule.refs.isEmpty then return (.returned none, ctx)
  else throw .undefinedBehaviour

def runStar (sub : RunRule σ) (ref : GRuleRef) : ℕ → ℕ → GParseContext σ → Exec (Ended σ)
  | 0, _, _ => throw .nonTermination
  | fuel + 1, pos, ctx => do
    match ← runRef tokenizer sub ref pos true ctx with
    | (.returned (some pos), ctx) => runStar sub ref fuel pos ctx
    | (.returned none, ctx) => return (.returned (some pos), ctx)
    | (.backtracked, ctx') =>
      return (.returned (some pos),
        { ctx' with buildSteps := ctx'.buildSteps.take ctx.buildSteps.length })

/-- A jump does not come back to where the value is closed. -/
def buildPop : Ended σ → Ended σ
  | (.returned result, ctx) => (.returned result, makeBuildStep ctx .BUILD_POP)
  | (.backtracked, ctx) => (.backtracked, ctx)

def dispatchByID (rules : List GRule)
    (dispatch : GRule → ℕ → Bool → GParseContext σ → Exec (Ended σ)) : RunRule σ :=
  fun id pos resumable ctx =>
    match getRule rules id with
    | some rule => dispatch rule pos resumable ctx
    | none => throw .undefinedBehaviour

def parseDispatch (rules : List GRule) : ℕ → GRule → ℕ → Bool → GParseContext σ → Exec (Ended σ)
  | 0, _, _, _, _ => throw .nonTermination
  | fuel + 1, rule, pos, resumable, ctx =>
    let sub : RunRule σ := dispatchByID rules (parseDispatch rules fuel)
    match rule.type with
    | .G_SEQ => do
      let ctx := makeBuildStep ctx (.BUILD_OBJECT rule)
      return buildPop (← runSeq tokenizer sub resumable rule.refs pos ctx)
    | .G_ALT => do return buildPop (← runAlt tokenizer sub rule resumable pos ctx)
    | .G_STAR => do
      let some ref := rule.refs.head? | throw .undefinedBehaviour
      let ctx := makeBuildStep ctx (.BUILD_ARRAY rule)
      return buildPop (← runStar tokenizer sub ref fuel pos ctx)
    | .G_PLUS => return (.returned none, ctx)

/-- The status and the context. A rule set that cannot be made, or that is without the rule at the
top, is a null pointer. -/
def gParse (fuel : ℕ) (ruleSet : List GRuleSpec) (topRuleID : ℤ) (state : σ) :
    Exec (Option ℕ × GParseContext σ) := do
  let some rules := makeGRules tokenizer ruleSet | throw .undefinedBehaviour
  let some top := getRule rules topRuleID | throw .undefinedBehaviour
  match top.type with
  | .G_SEQ =>
    match ← parseDispatch tokenizer rules fuel top 0 false ⟨state, []⟩ with
    | (.returned status, ctx) => return (status, ctx)
    | (.backtracked, _) => throw .undefinedBehaviour
  | _ => return (none, ⟨state, []⟩)

end

end Jq
end ZoweCommon
