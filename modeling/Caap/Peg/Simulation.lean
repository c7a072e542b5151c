/-
  Caap.Peg.Simulation

  One evaluation from two states.  Without the memo and without indentation an outcome
  depends on the captures alone (`CoreRel`); the diagnostics, the counter of steps and the
  events never come back, except in the positions of failures, which no matcher looks at
  (`SameAnswer`).
-/

import Caap.Peg.BoundsRun

namespace Caap.Peg

open Lib

/-- The same answer: the same success, or failures with the same cut. -/
inductive SameAnswer : ParseOutcome → ParseOutcome → Prop
  | success {pos : Nat} {value : ParseValue} {cut : Bool} :
      SameAnswer (.success pos value cut) (.success pos value cut)
  | failure {fp fp' : Nat} {cut : Bool} : SameAnswer (.failure fp cut) (.failure fp' cut)

theorem SameAnswer.refl (o : ParseOutcome) : SameAnswer o o := by
  cases o with
  | success pos value cut => exact .success
  | failure fp cut => exact .failure

/-- An error of the step counter. -/
def IsStepError : Stop → Prop
  | .error e => e.code = some "step_budget_exhausted" ∨ e.code = some "step_counter_overflow"
  | _ => False

/-- States without indentation from which the evaluations are compared. -/
structure CoreRel (s t : EvalState) : Prop where
  captures : s.captures = t.captures
  left : s.layout = .new false
  right : t.layout = .new false

/-- The second program follows the first. -/
abbrev Sim {α : Type} (m m' : Eval α) (Q : α → α → Prop) : Prop :=
  Related CoreRel IsStepError m m' Q

/-- The program has the same result from both states. -/
abbrev Fixed {α : Type} (m : Eval α) : Prop := Sim m m Eq

/-- The program has the same answer from both states. -/
abbrev Repeats (m : Eval ParseOutcome) : Prop := Sim m m SameAnswer

theorem Fixed.bind {α β : Type} {m : Eval α} {f f' : α → Eval β} {Q : β → β → Prop} (h : Fixed m)
    (hf : ∀ a, Sim (f a) (f' a) Q) : Sim (m >>= f) (m >>= f') Q :=
  .bind h fun a _ heq => heq ▸ hf a

/-- What follows an answer distinguishes successes and failures only. -/
theorem Repeats.cases {α : Type} {m : Eval ParseOutcome} {f f' : ParseOutcome → Eval α}
    {Q : α → α → Prop} (h : Repeats m)
    (hsuccess : ∀ stop value cut, Sim (f (.success stop value cut)) (f' (.success stop value cut)) Q)
    (hfailure : ∀ fp fp' cut, Sim (f (.failure fp cut)) (f' (.failure fp' cut)) Q) :
    Sim (m >>= f) (m >>= f') Q := by
  refine .bind h fun o o' ho => ?_
  cases ho with
  | success => exact hsuccess _ _ _
  | failure => exact hfailure _ _ _

theorem parseError_related {α : Type} {Q : α → α → Prop} {message message' : String}
    {start stop start' stop' : Nat} {code code' : Option String} :
    Sim (parseError message start stop code) (parseError message' start' stop' code') Q :=
  .throw

variable {pos : Nat}

theorem success_related {value : ParseValue} {cut : Bool} :
    Repeats (pure (.success pos value cut)) :=
  .pure .success

theorem failure_related {fp fp' : Nat} {cut : Bool} :
    Sim (pure (.failure fp cut)) (pure (.failure fp' cut)) SameAnswer :=
  .pure .failure

theorem failExpecting_related {fp fp' : Nat} {label label' : String} :
    Sim (failExpecting fp label) (failExpecting fp' label') SameAnswer :=
  (Related.modify fun _ _ h => ⟨h.captures, h.left, h.right⟩).bind fun _ _ _ => failure_related

theorem suffixFrom_fixed (ctx : ParseCtx) (pos : Nat) : Fixed (suffixFrom ctx pos) := by
  unfold suffixFrom
  split
  · exact .pure rfl
  · exact .throw

theorem textBetween_fixed (ctx : ParseCtx) (start stop : Nat) :
    Fixed (textBetween ctx start stop) := by
  unfold textBetween
  split
  · exact .pure rfl
  · exact .throw

theorem skipTrivia_fixed {ctx : ParseCtx} {scope : Scope} : Fixed (skipTrivia ctx scope pos) := by
  unfold skipTrivia
  split
  · exact .pure rfl
  split
  · exact .pure rfl
  split
  · exact .pure rfl
  · exact .throw

theorem specCheckpoint_fixed : Fixed specCheckpoint :=
  .get_bind fun _ _ h => .pure h.captures

variable {captures : List (String × String)}

theorem specRollback_fixed : Fixed (specRollback captures) :=
  .modify fun _ _ h => ⟨rfl, h.left, h.right⟩

/-- What a discarded branch is followed by. -/
theorem rollback_related {α : Type} {m m' : Eval α} {Q : α → α → Prop} (h : Sim m m' Q) :
    Sim (specRollback captures >>= fun _ => m) (specRollback captures >>= fun _ => m') Q :=
  specRollback_fixed.bind fun _ => h

/-! ## Terminals -/

variable {name : String}

section Terminals

variable {ctx : ParseCtx} {scope : Scope} {pos : Nat}

/-- A terminal skips trivia and looks at what follows. -/
theorem skipTrivia_suffix_related {f : Nat → List Char → Eval ParseOutcome}
    (hf : ∀ cur rest, Repeats (f cur rest)) :
    Repeats (skipTrivia ctx scope pos >>= fun cur => suffixFrom ctx cur >>= fun rest => f cur rest) :=
  skipTrivia_fixed.bind fun cur => (suffixFrom_fixed ctx cur).bind fun rest =>
    hf cur rest

theorem matchLiteral_repeats {literal : String} : Repeats (matchLiteral ctx scope literal pos) :=
  skipTrivia_suffix_related fun _ _ =>
    .ite (fun _ => success_related) fun _ => failExpecting_related

theorem matchDot_repeats : Repeats (matchDot ctx scope pos) := by
  refine skipTrivia_suffix_related fun cur rest => ?_
  cases rest.head? with
  | none => exact failExpecting_related
  | some c => exact success_related

theorem matchRegex_repeats {pattern : String} : Repeats (matchRegex ctx scope pattern pos) := by
  refine skipTrivia_suffix_related fun cur rest => ?_
  cases ctx.host.regexFind pattern rest with
  | none => exact failExpecting_related
  | some n => exact success_related

theorem matchCharClass_repeats {cls : CharClass} : Repeats (matchCharClass ctx scope cls pos) := by
  refine skipTrivia_suffix_related fun cur rest => ?_
  cases rest.head? with
  | none => exact failExpecting_related
  | some c => exact .ite (fun _ => success_related) fun _ => failExpecting_related

theorem matchRecover_repeats {syncs : List String} : Repeats (matchRecover ctx syncs pos) :=
  .ite (fun _ => failExpecting_related) fun _ => (suffixFrom_fixed ctx pos).bind fun _ =>
    (textBetween_fixed ctx pos _).bind fun _ => success_related

theorem matchHardKeyword_repeats {keyword : String} :
    Repeats (matchHardKeyword ctx scope keyword pos) := by
  refine skipTrivia_suffix_related fun cur rest => ?_
  refine .ite (fun _ => ?_) fun _ => failExpecting_related
  refine (suffixFrom_fixed ctx _).bind fun after => ?_
  exact .ite (fun _ => failExpecting_related) fun _ => success_related

/-- A back reference reads the captures, which are the same. -/
theorem matchBackref_repeats : Repeats (matchBackref ctx scope name pos) := by
  refine skipTrivia_fixed.bind fun cur => .get_bind fun s t hst => ?_
  rw [← hst.captures]
  cases s.captures.lookup name with
  | none => exact failExpecting_related
  | some expected =>
    refine .ite (fun _ => failExpecting_related) fun _ => ?_
    refine (suffixFrom_fixed ctx cur).bind fun rest => ?_
    exact .ite (fun _ => success_related) fun _ => failExpecting_related

theorem matchNewline_repeats : Repeats (matchNewline ctx scope pos) := by
  have hstart : Fixed (newlineStart ctx scope pos) := by
    refine .get_bind fun s t hst => ?_
    rw [hst.left, hst.right]
    exact .ite (fun _ => .pure rfl) fun _ => skipTrivia_fixed
  refine hstart.bind fun cur => ?_
  cases newlineAt ctx.text cur with
  | none =>
    refine Fixed.bind ?_ fun _ => failExpecting_related
    exact (suffixFrom_fixed ctx cur).bind fun _ => .pure rfl
  | some stop =>
    refine (Related.modify fun s t h => ⟨h.captures, ?_, ?_⟩).bind fun _ _ _ => success_related
    · show { s.layout with atLineStart := true } = _
      rw [h.left]
      rfl
    · show { t.layout with atLineStart := true } = _
      rw [h.right]
      rfl

theorem matchIndent_repeats : Repeats (matchIndent ctx pos) := by
  refine .get_bind fun s t hst => ?_
  rw [hst.left, hst.right]
  exact failExpecting_related

theorem matchDedent_repeats : Repeats (matchDedent ctx pos) := by
  refine .get_bind fun s t hst => ?_
  rw [hst.left, hst.right]
  exact failExpecting_related

theorem matchIsland_repeats {start stop : String} {includeDelims : Bool} :
    Repeats (matchIsland ctx scope start stop includeDelims pos) := by
  refine skipTrivia_suffix_related fun cur rest => ?_
  refine .ite (fun _ => ?_) fun _ => failExpecting_related
  refine (suffixFrom_fixed ctx _).bind fun content => ?_
  cases findText stop.toList content with
  | none => exact failExpecting_related
  | some off =>
    refine Fixed.bind ?_ fun value => success_related
    exact .ite (fun _ => textBetween_fixed _ _ _) fun _ => textBetween_fixed _ _ _

theorem matchSemanticPredicate_repeats : Repeats (matchSemanticPredicate ctx name pos) :=
  .ite (fun _ => success_related) fun _ => parseError_related

theorem matchTokenRef_repeats {kind text : Option String} :
    Repeats (matchTokenRef ctx scope kind text pos) := by
  refine skipTrivia_fixed.bind fun cur => ?_
  cases ctx.cfg.lexTokens with
  | none => exact parseError_related
  | some tokens =>
    simp only
    cases tokens.dropWhile fun token => token.start < cur with
    | nil => exact failExpecting_related
    | cons token rest =>
      exact .ite (fun _ => failExpecting_related) fun _ =>
        .ite (fun _ => failExpecting_related) fun _ =>
          .ite (fun _ => failExpecting_related) fun _ => success_related

theorem rawBlockScan_repeats (start stop delimKind : String) (cur contentStart fuel depth scan : Nat) :
    Repeats (rawBlockScan ctx start stop delimKind cur contentStart fuel depth scan) := by
  induction fuel generalizing depth scan with
  | zero => exact .throw
  | succ fuel ih =>
    refine (suffixFrom_fixed ctx scan).bind fun rest => ?_
    have hdone : ∀ c, Repeats (textBetween ctx contentStart (scan + c) >>= fun content =>
        pure (.success (scan + c + strLen stop) (.text content) false)) :=
      fun c => (textBetween_fixed ctx contentStart _).bind fun _ => success_related
    cases findText stop.toList rest with
    | none => exact parseError_related
    | some c =>
      cases findText start.toList rest with
      | none => exact .ite (fun _ => hdone c) fun _ => ih _ _
      | some o =>
        refine .ite (fun _ => ih _ _) fun _ => ?_
        exact .ite (fun _ => hdone c) fun _ => ih _ _

theorem matchRawBlock_repeats {start stop delimKind : String} {fuel : Nat} :
    Repeats (matchRawBlock ctx scope start stop delimKind fuel pos) :=
  .ite (fun _ => parseError_related) fun _ => skipTrivia_suffix_related
    fun cur _ => .ite (fun _ => rawBlockScan_repeats start stop delimKind cur _ fuel _ _)
      fun _ => failExpecting_related

end Terminals

/-! ## Matchers of other expressions -/

section Matchers

variable {eval : ExprEval} {ctx : ParseCtx} (hev : ∀ scope e pos, Repeats (eval ctx scope e pos))
variable {scope : Scope}
include hev

variable {child : PegExpr}

theorem matchLookahead_repeats {negative : Bool} :
    Repeats (matchLookahead eval ctx scope negative child pos) := by
  refine specCheckpoint_fixed.bind fun saved => (hev scope child pos).cases ?_ ?_
  · intro stop value cut
    exact rollback_related (.ite (fun _ => success_related) fun _ => failure_related)
  · intro fp fp' cut
    exact rollback_related (.ite (fun _ => success_related) fun _ => failure_related)

theorem sequenceLoop_repeats (items : List PegExpr) (cur : Nat) (values : List ParseValue)
    (cutSeen : Bool) : Repeats (sequenceLoop eval ctx scope items cur values cutSeen) := by
  induction items generalizing cur values cutSeen with
  | nil => exact .pure (.refl _)
  | cons item items ih =>
    refine (hev scope item cur).cases (fun next value cut => ?_) fun _ _ _ => failure_related
    cases cut with
    | true => exact ih _ _ _
    | false => exact ih _ _ _

theorem choiceLoop_related (alternatives : List PegExpr) (pos : Nat) (candidates : List Nat)
    (furthest furthest' : Nat) :
    Sim (choiceLoop eval ctx scope alternatives pos candidates furthest)
      (choiceLoop eval ctx scope alternatives pos candidates furthest') SameAnswer := by
  induction candidates generalizing furthest furthest' with
  | nil => exact failure_related
  | cons idx candidates ih =>
    refine specCheckpoint_fixed.bind fun saved => ?_
    cases alternatives[idx]? with
    | none => exact .throw
    | some alternative =>
      refine (hev scope alternative pos).cases (fun _ _ _ => success_related) fun fp fp' cut => ?_
      cases cut with
      | true => exact rollback_related failure_related
      | false => exact rollback_related (ih _ _)

theorem matchChoiceDispatched_repeats {alternatives : List PegExpr} {dispatch : ChoiceDispatch}
    : Repeats (matchChoiceDispatched eval ctx scope alternatives dispatch pos) := by
  refine skipTrivia_suffix_related fun cur rest => ?_
  cases rest.head? with
  | none => exact choiceLoop_related hev _ pos _ _ _
  | some c =>
    simp only
    split
    · exact choiceLoop_related hev _ pos _ _ _
    · exact choiceLoop_related hev _ pos _ _ _

theorem matchOptional_repeats : Repeats (matchOptional eval ctx scope child pos) :=
  specCheckpoint_fixed.bind fun _ => (hev scope child pos).cases (fun _ _ _ => success_related)
    fun _ _ _ => rollback_related success_related

theorem repeatLoop_fixed (child : PegExpr) (max : Option Nat) (fuel cur : Nat)
    (values : List ParseValue) : Fixed (repeatLoop eval ctx scope child max fuel cur values) := by
  induction fuel generalizing cur values with
  | zero => exact .throw
  | succ fuel ih =>
    refine .ite (fun _ => .pure rfl) fun _ => specCheckpoint_fixed.bind fun saved => ?_
    refine (hev scope child cur).cases (fun next value cut => ?_) fun _ _ _ =>
      rollback_related (.pure rfl)
    exact .ite (fun _ => ih _ _) fun _ => rollback_related (.pure rfl)

theorem matchFirst_repeats
    {more : Nat → ParseValue → Eval ParseOutcome} (hmore : ∀ next value, Repeats (more next value)) :
    Repeats (matchFirst eval ctx scope child pos more) :=
  specCheckpoint_fixed.bind fun _ => (hev scope child pos).cases (fun _ _ _ => hmore _ _)
    fun _ _ _ => rollback_related failure_related

theorem matchOneOrMore_repeats {fuel : Nat} :
    Repeats (matchOneOrMore eval ctx scope child fuel pos) :=
  matchFirst_repeats hev fun next value =>
    (repeatLoop_fixed hev child none fuel next [value]).bind fun _ => success_related

theorem matchRepeat_repeats {min : Nat} {max : Option Nat} {fuel : Nat} :
    Repeats (matchRepeat eval ctx scope child min max fuel pos) :=
  (repeatLoop_fixed hev child max fuel pos []).bind fun _ =>
    .ite (fun _ => failExpecting_related) fun _ => success_related

theorem separatedLoop_fixed (element separator : PegExpr) (keepSeparators : Bool) (fuel cur : Nat)
    (values : List ParseValue) :
    Fixed (separatedLoop eval ctx scope element separator keepSeparators fuel cur values) := by
  induction fuel generalizing cur values with
  | zero => exact .throw
  | succ fuel ih =>
    refine specCheckpoint_fixed.bind fun saved => (hev scope separator cur).cases ?_ fun _ _ _ =>
      rollback_related (.pure rfl)
    intro sepPos sepValue cut
    exact (hev scope element sepPos).cases (fun _ _ _ => ih _ _) fun _ _ _ =>
      rollback_related (.pure rfl)

/-! ### Operator precedence -/

theorem peekOperators_fixed (ops : List PegExpr) (pos : Nat) :
    Fixed (peekOperators eval ctx scope pos ops) := by
  induction ops with
  | nil => exact .pure rfl
  | cons op ops ih =>
    exact specCheckpoint_fixed.bind fun saved => (hev scope op pos).cases
      (fun _ _ _ => rollback_related (.pure rfl)) fun _ _ _ => rollback_related ih

theorem peekPrecOp_fixed (want : List Fixity) (levels : List (Fixity × List PegExpr))
    (prec pos : Nat) : Fixed (peekPrecOp eval ctx scope pos want levels prec) := by
  induction levels generalizing prec with
  | nil => exact .pure rfl
  | cons level levels ih =>
    refine .ite (fun _ => ?_) fun _ => ih _
    have hleading : Fixed (leadingOperators level) := by
      refine .ite (fun _ => ?_) fun _ => .pure rfl
      cases level.2 with
      | nil => exact .throw
      | cons op ops => exact .pure rfl
    refine hleading.bind fun ops => (peekOperators_fixed hev ops pos).bind fun found => ?_
    cases found with
    | none => exact ih _
    | some found => exact .pure rfl

variable {levels : List (Fixity × List PegExpr)}

theorem nonAssocChained_fixed {fixity : Fixity}
    {prec cur : Nat} : Fixed (nonAssocChained eval ctx scope levels fixity prec cur) := by
  refine .ite (fun _ => ?_) fun _ => .pure rfl
  refine (peekPrecOp_fixed hev _ levels 0 cur).bind fun found => ?_
  cases found <;> exact .pure rfl

theorem precedence_repeats {operand : PegExpr} {fuel : Nat} :
    (∀ minBp pos, Repeats (precedenceBp eval ctx scope operand levels fuel minBp pos)) ∧
      ∀ minBp lhs cur, Repeats (precedenceLed eval ctx scope operand levels fuel minBp lhs cur) := by
  induction fuel with
  | zero => exact ⟨fun _ _ => .throw, fun _ _ _ => .throw⟩
  | succ fuel ih =>
    obtain ⟨ihbp, ihled⟩ := ih
    constructor
    · intro minBp pos
      simp only [precedenceBp]
      refine (peekPrecOp_fixed hev _ levels 0 pos).bind fun found => ?_
      rcases found with _ | ⟨opValue, opEnd, prec, fixity⟩
      · exact (hev scope operand pos).cases (fun _ _ _ => ihled _ _ _) fun _ _ _ => failure_related
      · exact (ihbp prec opEnd).cases (fun _ _ _ => ihled _ _ _) fun _ _ _ => failExpecting_related
    · intro minBp lhs cur
      simp only [precedenceLed]
      refine (peekPrecOp_fixed hev _ levels 0 cur).bind fun found => ?_
      rcases found with _ | ⟨opValue, opEnd, prec, fixity⟩
      · exact success_related
      refine .ite (fun _ => success_related) fun _ => ?_
      cases fixity with
      | postfixOp => exact ihled _ _ _
      | prefixOp => exact .throw
      | infixLeft | infixRight | infixNon =>
        refine (ihbp _ opEnd).cases (fun _ _ _ => ?_) fun _ _ _ => failExpecting_related
        refine (nonAssocChained_fixed hev).bind fun chained => ?_
        exact .ite (fun _ => failExpecting_related) fun _ => ihled _ _ _
      | ternary =>
        have hclosing : Fixed (closingOperator levels prec) := by
          unfold closingOperator
          split
          · exact .pure rfl
          · exact .throw
        refine hclosing.bind fun close => ?_
        refine (ihbp 0 opEnd).cases (fun thenEnd _ _ => ?_) fun _ _ _ => failExpecting_related
        refine (hev scope close thenEnd).cases (fun closeEnd _ _ => ?_) fun _ _ _ =>
          failExpecting_related
        exact (ihbp prec closeEnd).cases (fun _ _ _ => ihled _ _ _) fun _ _ _ => failExpecting_related

/-! ### Wrappers -/

theorem matchNamed_repeats : Repeats (matchNamed eval ctx scope name child pos) := by
  refine (hev scope child pos).cases (fun stop value cut => ?_) fun _ _ _ => failure_related
  refine Fixed.bind ?_ fun _ => success_related
  unfold bindCapture
  split
  · refine .modify fun s t hst => ⟨?_, hst.left, hst.right⟩
    show replaceEntry name _ s.captures = replaceEntry name _ t.captures
    rw [hst.captures]
  · exact .pure rfl

theorem matchExpected_repeats {message : String} :
    Repeats (matchExpected eval ctx scope message child pos) := by
  refine .get_bind fun _ _ _ => (hev scope child pos).cases (fun _ _ _ => success_related)
    fun _ _ _ => .get_bind fun s t hst => ?_
  exact (Related.set ⟨hst.captures, hst.left, hst.right⟩).bind fun _ _ _ => failure_related

theorem matchSemanticAction_repeats : Repeats (matchSemanticAction eval ctx scope name child pos) :=
  (hev scope child pos).cases
    (fun _ _ _ => .ite (fun _ => success_related) fun _ => parseError_related)
    fun _ _ _ => failure_related

theorem matchSemanticGuard_repeats : Repeats (matchSemanticGuard eval ctx scope child pos) :=
  specCheckpoint_fixed.bind fun _ => (hev scope child pos).cases (fun _ _ _ => success_related)
    fun _ _ _ => rollback_related failure_related

theorem matchEager_repeats : Repeats (matchEager eval ctx scope child pos) :=
  (hev scope child pos).cases (fun _ _ _ => success_related)
    fun _ _ _ => .get_bind fun _ _ _ => parseError_related

theorem matchWithTrivia_repeats {spec : String} :
    Repeats (matchWithTrivia eval ctx scope spec child pos) := by
  unfold matchWithTrivia
  cases skipStrategyFromConfig ctx.host spec with
  | ok skipper => exact hev _ child pos
  | error e => exact parseError_related

theorem lookBehindLoop_fixed {starts : List Nat} :
    Fixed (lookBehindLoop eval ctx scope child pos starts) := by
  induction starts with
  | nil => exact .pure rfl
  | cons start starts ih =>
    exact .ite (fun _ => (hev scope child start).cases
      (fun _ _ _ => .ite (fun _ => .pure rfl) fun _ => ih) fun _ _ _ => ih) fun _ => ih

theorem matchLookBehind_repeats {negative : Bool} :
    Repeats (matchLookBehind eval ctx scope child negative pos) :=
  specCheckpoint_fixed.bind fun _ => (lookBehindLoop_fixed hev).bind fun _ =>
    rollback_related (.ite (fun _ => success_related) fun _ => failExpecting_related)

theorem matchParameter_repeats : Repeats (matchParameter eval ctx scope name pos) := by
  unfold matchParameter
  cases scope.binding name with
  | none => exact parseError_related
  | some bound => exact hev scope bound pos

/-! ### Rules -/

theorem evalBody_repeats {rule : String} {body : PegExpr} :
    Repeats (evalBody eval ctx scope rule body pos) := by
  cases body with
  | choice alternatives =>
    simp only [evalBody]
    cases ctx.compiled.ruleDispatch.lookup rule with
    | none => exact choiceLoop_related hev alternatives pos _ pos pos
    | some dispatch => exact matchChoiceDispatched_repeats hev
  | _ => exact hev scope _ pos

theorem parseRuleBody_repeats {rule : String} {body : PegExpr} :
    Repeats (parseRuleBody eval ctx scope rule body pos) := by
  have hemit : ∀ event event', Sim (emit ctx event) (emit ctx event') Eq := fun event event' =>
    .ite (fun _ => .modify fun _ _ h => ⟨h.captures, h.left, h.right⟩)
      fun _ => .pure rfl
  refine (hemit _ _).bind fun _ _ _ => (evalBody_repeats hev).bind fun o o' ho => ?_
  exact (hemit _ _).bind fun _ _ _ => .pure ho

/-- Without the memo there is no left recursion. -/
theorem parseRuleInner_repeats (hmemo : ctx.cfg.useMemo = false) (rule : String) (pos : Nat) :
    Repeats (parseRuleInner eval ctx scope rule pos) := by
  unfold parseRuleInner
  refine .ite (fun _ => failure_related) fun _ => ?_
  cases scope.params.head?.bind fun frame => frame.lookup rule with
  | some bound => exact hev scope bound pos
  | none =>
    cases ctx.compiled.rules.lookup rule with
    | none => exact parseError_related
    | some body =>
      have hnote : Fixed (noteReentry scope rule pos) := .ite
        (fun _ => .modify fun _ _ h => ⟨h.captures, h.left, h.right⟩) fun _ => .pure rfl
      refine hnote.bind fun _ => ?_
      simp only [hmemo, Bool.false_eq_true, if_false]
      refine .ite (fun _ => parseError_related) fun _ => ?_
      exact .ite (fun _ => failure_related) fun _ => parseRuleBody_repeats hev

end Matchers

/-- The evaluations of an imported grammar start from new states, and what they leave in the
    states of their callers is not compared. -/
theorem runInImported_repeats {ctx : ParseCtx} {scope : Scope}
    {body : ParseCtx → Scope → Eval ParseOutcome} {grammarName : String}
    (hbody : ∀ imported scope, Repeats (body { ctx with compiled := imported } scope)) :
    Repeats (runInImported ctx scope grammarName pos body) := by
  unfold runInImported
  cases ctx.compiled.imports.lookup grammarName with
  | none => exact parseError_related
  | some imported =>
    intro s t hst
    have hsub := hbody imported (.new scope.triviaOn)
      { EvalState.new s.layout.indentationEnabled with events := s.events }
      { EvalState.new t.layout.indentationEnabled with events := t.events }
      ⟨rfl, by rw [hst.left]; rfl, by rw [hst.right]; rfl⟩
    simp only
    revert hsub
    rcases body { ctx with compiled := imported } (.new scope.triviaOn)
      { EvalState.new s.layout.indentationEnabled with events := s.events } with ⟨e | o, s'⟩ <;>
    rcases body { ctx with compiled := imported } (.new scope.triviaOn)
      { EvalState.new t.layout.indentationEnabled with events := t.events } with ⟨e' | o', t'⟩
    · exact fun _ => trivial
    · exact id
    · exact id
    · exact fun h => ⟨h.1, hst.captures, hst.left, hst.right⟩

/-! ## Expressions -/

/-- An expression has the same answer from both states if those that it evaluates have. -/
theorem evalForm_repeats {eval : ExprEval} {evalRule : RuleEval} (ctx : ParseCtx)
    (hall : ∀ compiled scope e pos, Repeats (eval { ctx with compiled := compiled } scope e pos))
    (hrule : ∀ compiled scope rule pos,
      Repeats (evalRule { ctx with compiled := compiled } scope rule pos))
    (scope : Scope) (fuel : Nat) (e : PegExpr) (pos : Nat) :
    Repeats (evalForm eval ctx scope evalRule fuel e pos) := by
  have hev : ∀ scope e pos, Repeats (eval ctx scope e pos) := hall ctx.compiled
  cases e with
  | literal value => exact matchLiteral_repeats
  | dot => exact matchDot_repeats
  | regex pattern => exact matchRegex_repeats
  | charClass cls => exact matchCharClass_repeats
  | recover syncs => exact matchRecover_repeats
  | ref name => exact hrule ctx.compiled scope name pos
  | sequence items => exact sequenceLoop_repeats hev items pos [] false
  | choice alternatives => exact choiceLoop_related hev alternatives pos _ pos pos
  | and _ | not _ => exact matchLookahead_repeats hev
  | cut => exact success_related
  | optional child => exact matchOptional_repeats hev
  | oneOrMore child => exact matchOneOrMore_repeats hev
  | zeroOrMore child =>
    exact (repeatLoop_fixed hev child none fuel pos []).bind fun _ => success_related
  | repeated child min max => exact matchRepeat_repeats hev
  | precedence operand levels => exact (precedence_repeats hev).1 0 pos
  | sepOneOrMore element separator | interspersed element separator =>
    exact matchFirst_repeats hev fun next value =>
      (separatedLoop_fixed hev element separator _ fuel next [value]).bind fun _ =>
        success_related
  | named name child => exact matchNamed_repeats hev
  | expected message child => exact matchExpected_repeats hev
  | noTrivia child => exact hev _ child pos
  | withTrivia spec child => exact matchWithTrivia_repeats hev
  | newline => exact matchNewline_repeats
  | indent => exact matchIndent_repeats
  | dedent => exact matchDedent_repeats
  | semanticAction name child => exact matchSemanticAction_repeats hev
  | semanticPredicate name => exact matchSemanticPredicate_repeats
  | semanticGuard name child => exact matchSemanticGuard_repeats hev
  | capture label child =>
    exact (hev scope child pos).cases (fun _ _ _ => success_related) fun _ _ _ => failure_related
  | island start stop includeDelims => exact matchIsland_repeats
  | rawBlock start stop delimKind => exact matchRawBlock_repeats
  | eager child => exact matchEager_repeats hev
  | lookBehind child negative => exact matchLookBehind_repeats hev
  | backref name => exact matchBackref_repeats
  | importedRef grammarName ruleName =>
    unfold evalForm matchImportedRef
    refine runInImported_repeats fun imported scope => ?_
    exact .ite (fun _ => hrule imported scope ruleName pos) fun _ => parseError_related
  | parameter name => exact matchParameter_repeats hev
  | call rule args => exact hrule ctx.compiled _ rule pos
  | hardKeyword keyword | softKeyword keyword => exact matchHardKeyword_repeats
  | grammarScope grammarName child =>
    unfold evalForm matchGrammarScope
    refine runInImported_repeats fun imported scope => ?_
    exact hall imported scope child pos
  | tokenRef kind text => exact matchTokenRef_repeats
  | invalid message => exact parseError_related

theorem consumeExprStep_finishes (ctx : ParseCtx) (pos : Nat) (s : EvalState) :
    Finishes (fun _ s' => s' = { s with exprSteps := s.exprSteps + 1 }) (fun e _ => IsStepError e)
      (consumeExprStep ctx pos s) := by
  show Finishes _ _ ((if 2 ^ 64 ≤ s.exprSteps + 1 then _ else _ : Eval Unit) s)
  split_ifs
  · exact Or.inr rfl
  · exact Or.inl rfl
  · exact rfl

/-- The counters of the two runs differ, so the budget may end one of them alone. -/
theorem guardExpr_related (ctx : ParseCtx) (scope : Scope) (pos : Nat) :
    Sim (guardExpr ctx scope pos) (guardExpr ctx scope pos) Eq := by
  refine .ite (fun _ => parseError_related) fun _ => ?_
  intro s t hst
  have hs := consumeExprStep_finishes ctx pos s
  have ht := consumeExprStep_finishes ctx pos t
  revert hs ht
  rcases consumeExprStep ctx pos s with ⟨e | _, s'⟩ <;>
    rcases consumeExprStep ctx pos t with ⟨e' | _, t'⟩
  · exact fun _ _ => trivial
  · exact fun h _ => h
  · exact fun _ h => h
  · rintro rfl rfl
    exact ⟨rfl, hst.captures, hst.left, hst.right⟩

/-- Two runs without the memo from states with the same captures and without indentation. -/
theorem parseExpr_repeats (ctx : ParseCtx) (hmemo : ctx.cfg.useMemo = false) (fuel : Nat) :
    ∀ compiled scope e pos, Repeats (parseExpr fuel { ctx with compiled := compiled } scope e pos) := by
  induction fuel with
  | zero => exact fun _ _ _ _ => .throw
  | succ fuel ih =>
    intro compiled scope e pos
    refine (guardExpr_related { ctx with compiled := compiled } scope pos).bind fun _ _ _ => ?_
    exact evalForm_repeats { ctx with compiled := compiled } ih
      (fun compiled scope => parseRuleInner_repeats (ih compiled) hmemo) _ fuel e pos

end Caap.Peg
