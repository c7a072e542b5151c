/-
  Caap.Peg.Evaluator

  Rules with the packrat memo, the growth of left-recursive rules, imported grammars and
  the dispatch of `parse_expr`, which recurses on fuel.
-/

import Caap.Peg.Engine

namespace Caap.Peg

open Lib

/-- The evaluation of a rule at a position. -/
abbrev RuleEval := ParseCtx → Scope → String → Nat → Eval ParseOutcome

section Rules

variable (eval : ExprEval) (ctx : ParseCtx) (scope : Scope)

/-! ## Rule bodies and left recursion -/

/-- What the collector of `parse_ast` records. -/
def emit (event : TraceEvent) : Eval Unit :=
  if ctx.cfg.observed then modify fun s => { s with events := s.events ++ [event] }
  else pure ()

/-- The body of a rule: a choice goes by its dispatch table if it has one. -/
def evalBody (rule : String) (body : PegExpr) (pos : Nat) : Eval ParseOutcome :=
  match body with
  | .choice alternatives =>
    match ctx.compiled.ruleDispatch.lookup rule with
    | some dispatch => matchChoiceDispatched eval ctx scope alternatives dispatch pos
    | none => matchChoice eval ctx scope alternatives pos
  | body => eval ctx scope body pos

/-- The event at the end of a rule body. -/
def endEvent (rule : String) (pos : Nat) : ParseOutcome → TraceEvent
  | .success stop _ _ => .exit rule stop
  | .failure _ _ => .fail rule pos

/-- `parse_rule_body`. -/
def parseRuleBody (rule : String) (body : PegExpr) (pos : Nat) : Eval ParseOutcome := do
  emit ctx (.enter rule pos)
  let result ← evalBody eval ctx { scope with active := (rule, pos) :: scope.active } rule body pos
  emit ctx (endEvent rule pos result)
  pure result

/-- `prune_left_recursive_peer_memos`. -/
def prunePeerMemos (rule : String) (pos : Nat) : Eval Unit :=
  modify fun s =>
    { s with ruleMemo := s.ruleMemo.filter fun entry =>
        !(entry.1.2 == pos && entry.1.1 != rule && ctx.compiled.leftRecursiveRules.contains entry.1.1) }

/-- The loop of `grow_left_recursive`. -/
def growLoop (rule : String) (body : PegExpr) (pos : Nat) : Nat → ParseOutcome → Eval ParseOutcome
  | 0, _ =>
    parseError ("internal parser error: rule '" ++ rule ++
      "' left-recursive growth exceeded input bounds") pos ctx.len none
  | n + 1, best => do
    prunePeerMemos ctx rule pos
    let result ← parseRuleBody eval ctx scope rule body pos
    if result.stop ≤ best.stop || !result.isSuccess then do
      memoInsert ctx (rule, pos) best
      pure best
    else do
      memoInsert ctx (rule, pos) result
      growLoop rule body pos n result

/-- The number of rounds of `grow_left_recursive`. -/
def growthRounds (rule : String) (pos : Nat) : Nat :=
  (ctx.len - pos) / max ((ctx.compiled.lrMinStep.lookup rule).getD 1) 1 + 2

/-- `grow_left_recursive`. -/
def growLeftRecursive (rule : String) (body : PegExpr) (pos : Nat) : Eval ParseOutcome := do
  memoInsert ctx (rule, pos) (.failure pos false)
  growLoop eval ctx scope rule body pos (growthRounds ctx rule pos) (.failure pos false)

/-- `run_left_recursive_growth`. -/
def runLeftRecursiveGrowth (rule : String) (body : PegExpr) (pos : Nat) : Eval ParseOutcome :=
  match ctx.compiled.ruleScc.lookup rule with
  | some scc =>
    growLeftRecursive eval ctx { scope with lrGrowing := (scc, pos) :: scope.lrGrowing } rule body pos
  | none => growLeftRecursive eval ctx scope rule body pos

/-- Whether no rule of the component of `rule` is growing at the position. -/
def isGrowthHead (rule : String) (pos : Nat) : Bool :=
  (ctx.compiled.ruleScc.lookup rule).all fun scc => !scope.lrGrowing.contains (scc, pos)

/-- A rule that the memo has no entry for. -/
def parseRuleUncached (rule : String) (body : PegExpr) (pos : Nat) : Eval ParseOutcome :=
  if ctx.compiled.leftRecursiveRules.contains rule && !scope.active.contains (rule, pos) &&
      isGrowthHead ctx scope rule pos then
    runLeftRecursiveGrowth eval ctx scope rule body pos
  else if scope.active.contains (rule, pos) then do
    memoInsert ctx (rule, pos) (.failure pos false)
    pure (.failure pos false)
  else do
    let result ← parseRuleBody eval ctx scope rule body pos
    memoInsert ctx (rule, pos) result
    pure result

/-- `parse_rule_inner` with the memo. -/
def parseRuleMemo (rule : String) (body : PegExpr) (pos : Nat) : Eval ParseOutcome := do
  let s ← get
  match s.ruleMemo.lookup (rule, pos) with
  | some cached => pure cached
  | none => parseRuleUncached eval ctx scope rule body pos

/-- `parse_rule_inner` without the memo. -/
def parseRuleNoMemo (rule : String) (body : PegExpr) (pos : Nat) : Eval ParseOutcome :=
  if ctx.compiled.leftRecursiveRules.contains rule then
    parseError ("memoization cannot be disabled for left-recursive rule '" ++ rule ++ "'") pos
      ctx.len none
  else if scope.active.contains (rule, pos) then pure (.failure pos false)
  else parseRuleBody eval ctx scope rule body pos

/-- Notes that a rule is invoked where it is being evaluated. -/
def noteReentry (rule : String) (pos : Nat) : Eval Unit :=
  if scope.active.contains (rule, pos) then
    modify fun s => { s with reentered := (rule, pos) :: s.reentered }
  else pure ()

/-- `parse_rule_inner`. -/
def parseRuleInner (rule : String) (pos : Nat) : Eval ParseOutcome :=
  if ctx.cfg.invalidRulePolicy.excludes rule then pure (.failure pos false)
  else
    match scope.params.head?.bind fun frame => frame.lookup rule with
    | some bound => eval ctx scope bound pos
    | none =>
      match ctx.compiled.rules.lookup rule with
      | none => parseError ("unknown rule '" ++ rule ++ "'") pos pos none
      | some body => do
        noteReentry scope rule pos
        if ctx.cfg.useMemo then parseRuleMemo eval ctx scope rule body pos
        else parseRuleNoMemo eval ctx scope rule body pos

/-! ## Parameters and imports -/

/-- The binding of a parameter, in the innermost frame that has one. -/
def Scope.binding (scope : Scope) (name : String) : Option PegExpr :=
  scope.params.findSome? fun frame => frame.lookup name

/-- `match_parameter`. -/
def matchParameter (name : String) (pos : Nat) : Eval ParseOutcome :=
  match scope.binding name with
  | some bound => eval ctx scope bound pos
  | none => parseError ("unbound parameter '$" ++ name ++ "'") pos pos none

/-- `resolve_arg_param`. -/
def resolveArgParam : PegExpr → PegExpr
  | .parameter name => (scope.binding name).getD (.parameter name)
  | arg => arg

/-- The frame of a call; a name that is declared twice has its last argument. -/
def callFrame (rule : String) (args : List PegExpr) : List (String × PegExpr) :=
  ((((ctx.compiled.ruleParams.lookup rule).getD []).zip args).map fun entry =>
    (entry.1, resolveArgParam scope entry.2)).reverse

/-- `match_call`. -/
def matchCall (evalRule : RuleEval) (rule : String) (args : List PegExpr) (pos : Nat) :
    Eval ParseOutcome :=
  evalRule ctx { scope with params := callFrame ctx scope rule args :: scope.params } rule pos

/-- What the evaluation in an imported grammar leaves in the state of its caller. -/
def EvalState.absorb (s sub : EvalState) : EvalState :=
  { s with
    events := sub.events
    diag := if s.diag.furthest ≤ sub.diag.furthest then sub.diag else s.diag }

/-- `run_in_imported`: a state of its own, for the text and the configuration of the caller. -/
def runInImported (grammarName : String) (pos : Nat)
    (body : ParseCtx → Scope → Eval ParseOutcome) : Eval ParseOutcome :=
  match ctx.compiled.imports.lookup grammarName with
  | none =>
    parseError ("unknown grammar import '" ++ grammarName ++
      "' — add it to the grammar registry via Grammar::add_import()") pos ctx.len none
  | some imported => fun s =>
    match body { ctx with compiled := imported } (.new scope.triviaOn)
        { EvalState.new s.layout.indentationEnabled with events := s.events } with
    | (.ok outcome, sub) => (.ok outcome, s.absorb sub)
    | (.error e, sub) => (.error e, { s with events := sub.events })

/-- `match_imported_ref`. -/
def matchImportedRef (evalRule : RuleEval) (grammarName ruleName : String) (pos : Nat) :
    Eval ParseOutcome :=
  runInImported ctx scope grammarName pos fun sub subScope =>
    if (sub.compiled.rules.lookup ruleName).isSome then evalRule sub subScope ruleName pos
    else
      parseError ("rule '" ++ ruleName ++ "' not found in imported grammar '" ++ grammarName ++ "'")
        pos ctx.len none

/-- `match_grammar_scope`. -/
def matchGrammarScope (grammarName : String) (child : PegExpr) (pos : Nat) : Eval ParseOutcome :=
  runInImported ctx scope grammarName pos fun sub subScope => eval sub subScope child pos

/-! ## Dispatch -/

/-- `consume_expr_step`. -/
def consumeExprStep (pos : Nat) : Eval Unit := do
  let s ← get
  if 2 ^ 64 ≤ s.exprSteps + 1 then
    parseError "parser expression step counter overflowed" pos ctx.len (some "step_counter_overflow")
  else if ctx.cfg.maxSteps < s.exprSteps + 1 then
    parseError ("parser step budget exceeded after " ++ toString ctx.cfg.maxSteps ++
      " expression steps") pos ctx.len (some "step_budget_exhausted")
  else set { s with exprSteps := s.exprSteps + 1 }

/-- The table of `parse_expr_dispatch`. -/
def evalForm (evalRule : RuleEval) (fuel : Nat) (e : PegExpr) (pos : Nat) : Eval ParseOutcome :=
  match e with
  | .literal value => matchLiteral ctx scope value pos
  | .dot => matchDot ctx scope pos
  | .regex pattern => matchRegex ctx scope pattern pos
  | .charClass cls => matchCharClass ctx scope cls pos
  | .recover syncs => matchRecover ctx syncs pos
  | .invalid message => parseError message pos ctx.len none
  | .and child => matchLookahead eval ctx scope false child pos
  | .not child => matchLookahead eval ctx scope true child pos
  | .cut => pure (.success pos .nil true)
  | .ref name => evalRule ctx scope name pos
  | .sequence items => sequenceLoop eval ctx scope items pos [] false
  | .choice alternatives => matchChoice eval ctx scope alternatives pos
  | .optional child => matchOptional eval ctx scope child pos
  | .oneOrMore child => matchOneOrMore eval ctx scope child fuel pos
  | .zeroOrMore child => matchZeroOrMore eval ctx scope child fuel pos
  | .repeated child min max => matchRepeat eval ctx scope child min max fuel pos
  | .precedence operand levels => precedenceBp eval ctx scope operand levels fuel 0 pos
  | .sepOneOrMore element separator => matchSepOneOrMore eval ctx scope element separator fuel pos
  | .interspersed element separator => matchInterspersed eval ctx scope element separator fuel pos
  | .named name child => matchNamed eval ctx scope name child pos
  | .expected message child => matchExpected eval ctx scope message child pos
  | .noTrivia child => matchNoTrivia eval ctx scope child pos
  | .withTrivia spec child => matchWithTrivia eval ctx scope spec child pos
  | .newline => matchNewline ctx scope pos
  | .indent => matchIndent ctx pos
  | .dedent => matchDedent ctx pos
  | .semanticAction name child => matchSemanticAction eval ctx scope name child pos
  | .semanticPredicate name => matchSemanticPredicate ctx name pos
  | .semanticGuard _ child => matchSemanticGuard eval ctx scope child pos
  | .capture _ child => matchCapture eval ctx scope child pos
  | .island start stop includeDelims => matchIsland ctx scope start stop includeDelims pos
  | .rawBlock start stop delimKind => matchRawBlock ctx scope start stop delimKind fuel pos
  | .eager child => matchEager eval ctx scope child pos
  | .lookBehind child negative => matchLookBehind eval ctx scope child negative pos
  | .backref name => matchBackref ctx scope name pos
  | .importedRef grammarName ruleName => matchImportedRef ctx scope evalRule grammarName ruleName pos
  | .parameter name => matchParameter eval ctx scope name pos
  | .call rule args => matchCall ctx scope evalRule rule args pos
  | .hardKeyword keyword => matchHardKeyword ctx scope keyword pos
  | .softKeyword keyword => matchHardKeyword ctx scope keyword pos
  | .grammarScope grammarName child => matchGrammarScope eval ctx scope grammarName child pos
  | .tokenRef kind text => matchTokenRef ctx scope kind text pos

/-- What `parse_expr` and `parse_expr_dispatch` check before they look at the expression. -/
def guardExpr (pos : Nat) : Eval Unit :=
  if ctx.cfg.maxDepth < scope.exprDepth + 1 then
    parseError ("parser recursion depth limit exceeded (" ++ toString ctx.cfg.maxDepth ++ ")") pos
      ctx.len (some "recursion_limit")
  else consumeExprStep ctx pos

end Rules

/-- `parse_expr`, to a depth of `fuel`. -/
def parseExpr : Nat → ExprEval
  | 0 => fun _ _ _ _ => throw .fuel
  | fuel + 1 => fun ctx scope e pos => do
    guardExpr ctx scope pos
    evalForm (parseExpr fuel) ctx { scope with exprDepth := scope.exprDepth + 1 }
      (parseRuleInner (parseExpr fuel)) fuel e pos

/-- `parse_rule`. -/
def parseRule (fuel : Nat) (ctx : ParseCtx) (rule : String) (pos : Nat) : Eval ParseOutcome :=
  parseRuleInner (parseExpr fuel) ctx (.new true) rule pos

end Caap.Peg
