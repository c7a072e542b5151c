/-
  Caap.Peg.Engine

  The matchers of `parser_engine` that evaluate other expressions.  Each takes the
  evaluation of its parts as an argument; the loops that the source bounds only by the
  step budget are on fuel.
-/

import Caap.Peg.Compile

namespace Caap.Peg

open Lib

/-- The evaluation of an expression at a position, as the matchers use it. -/
abbrev ExprEval := ParseCtx → Scope → PegExpr → Nat → Eval ParseOutcome

section Matchers

variable (eval : ExprEval) (ctx : ParseCtx) (scope : Scope)

/-! ## Predicates, sequences and choices -/

/-- `match_and` and `match_not`. -/
def matchLookahead (negative : Bool) (child : PegExpr) (pos : Nat) : Eval ParseOutcome := do
  let saved ← specCheckpoint
  let outcome ← eval ctx scope child pos
  specRollback saved
  if outcome.isSuccess != negative then pure (.success pos .nil false)
  else pure (.failure pos false)

/-- `sequence_value`. -/
def sequenceValue (pos : Nat) : List ParseValue → ParseOutcome
  | [] => .success pos .nil false
  | [value] => .success pos value false
  | values => .success pos (.node "sequence" values) false

/-- The loop of `match_sequence`. -/
def sequenceLoop : List PegExpr → Nat → List ParseValue → Bool → Eval ParseOutcome
  | [], cur, values, _ => pure (sequenceValue cur values)
  | item :: items, cur, values, cutSeen => do
    match ← eval ctx scope item cur with
    | .success next _ true => sequenceLoop items next values true
    | .success next value false => sequenceLoop items next (values ++ [value]) cutSeen
    | .failure next _ => pure (.failure next cutSeen)

/-- The loop of `run_choice`. -/
def choiceLoop (alternatives : List PegExpr) (pos : Nat) : List Nat → Nat → Eval ParseOutcome
  | [], furthest => pure (.failure furthest false)
  | idx :: candidates, furthest => do
    let saved ← specCheckpoint
    match alternatives[idx]? with
    | none => throw .index
    | some alternative =>
      match ← eval ctx scope alternative pos with
      | .success stop value cut => pure (.success stop value cut)
      | .failure fp true => do
        specRollback saved
        pure (.failure fp true)
      | .failure fp false => do
        specRollback saved
        choiceLoop alternatives pos candidates (max furthest fp)

/-- `match_choice`. -/
def matchChoice (alternatives : List PegExpr) (pos : Nat) : Eval ParseOutcome :=
  choiceLoop eval ctx scope alternatives pos (List.range alternatives.length) pos

/-- The candidates of `match_choice_dispatched`: numbers from one on become indices. -/
def dispatchCandidates (alternatives : List PegExpr) (indices : List Nat) : List Nat :=
  (indices.filter fun idx => idx ≠ 0 && idx ≤ alternatives.length).map (· - 1)

/-- `match_choice_dispatched`. -/
def matchChoiceDispatched (alternatives : List PegExpr) (dispatch : ChoiceDispatch) (pos : Nat) :
    Eval ParseOutcome := do
  let peekPos ← skipTrivia ctx scope pos
  let rest ← suffixFrom ctx peekPos
  match rest.head? with
  | none =>
    choiceLoop eval ctx scope alternatives pos (dispatchCandidates alternatives dispatch.2) pos
  | some c =>
    match dispatch.1.lookup c with
    | none => matchChoice eval ctx scope alternatives pos
    | some indices =>
      choiceLoop eval ctx scope alternatives pos
        (dispatchCandidates alternatives (sortDedup (indices ++ dispatch.2))) pos

/-! ## Repetitions -/

/-- `match_optional`. -/
def matchOptional (child : PegExpr) (pos : Nat) : Eval ParseOutcome := do
  let saved ← specCheckpoint
  match ← eval ctx scope child pos with
  | .success stop value _ => pure (.success stop value false)
  | .failure _ _ => do
    specRollback saved
    pure (.success pos .nil false)

/-- The loop that `match_one_or_more`, `match_zero_or_more` and `match_repeat` share: as
    long as the child advances, and at most `max` values. -/
def repeatLoop (child : PegExpr) (max : Option Nat) :
    Nat → Nat → List ParseValue → Eval (Nat × List ParseValue)
  | 0, _, _ => throw .fuel
  | n + 1, cur, values =>
    if max.any fun mx => mx ≤ values.length then pure (cur, values)
    else do
      let saved ← specCheckpoint
      match ← eval ctx scope child cur with
      | .success next value _ =>
        if cur < next then repeatLoop child max n next (values ++ [value])
        else do
          specRollback saved
          pure (cur, values)
      | .failure _ _ => do
        specRollback saved
        pure (cur, values)

/-- `match_zero_or_more`. -/
def matchZeroOrMore (child : PegExpr) (fuel pos : Nat) : Eval ParseOutcome := do
  let (cur, values) ← repeatLoop eval ctx scope child none fuel pos []
  pure (.success cur (.node "zero_or_more" values) false)

/-- The first element of a repetition with at least one: its failure is the outcome. -/
def matchFirst (child : PegExpr) (pos : Nat) (more : Nat → ParseValue → Eval ParseOutcome) :
    Eval ParseOutcome := do
  let saved ← specCheckpoint
  match ← eval ctx scope child pos with
  | .failure fp cut => do
    specRollback saved
    pure (.failure fp cut)
  | .success next value _ => more next value

/-- `match_one_or_more`. -/
def matchOneOrMore (child : PegExpr) (fuel pos : Nat) : Eval ParseOutcome :=
  matchFirst eval ctx scope child pos fun next value => do
    let (cur, values) ← repeatLoop eval ctx scope child none fuel next [value]
    pure (.success cur (.node "one_or_more" values) false)

/-- `match_repeat`. -/
def matchRepeat (child : PegExpr) (min : Nat) (max : Option Nat) (fuel pos : Nat) :
    Eval ParseOutcome := do
  let (cur, values) ← repeatLoop eval ctx scope child max fuel pos []
  if values.length < min then
    failExpecting cur ("at least " ++ toString min ++ " repetitions (got " ++
      toString values.length ++ ")")
  else pure (.success cur (.node "repeat" values) false)

/-- The loop of `match_sep_one_or_more` and `match_interspersed`, which keeps the values of
    the separators. -/
def separatedLoop (element separator : PegExpr) (keepSeparators : Bool) :
    Nat → Nat → List ParseValue → Eval (Nat × List ParseValue)
  | 0, _, _ => throw .fuel
  | n + 1, cur, values => do
    let saved ← specCheckpoint
    match ← eval ctx scope separator cur with
    | .failure _ _ => do
      specRollback saved
      pure (cur, values)
    | .success sepPos sepValue _ =>
      match ← eval ctx scope element sepPos with
      | .failure _ _ => do
        specRollback saved
        pure (cur, values)
      | .success next value _ =>
        separatedLoop element separator keepSeparators n next
          (values ++ if keepSeparators then [sepValue, value] else [value])

/-- `match_sep_one_or_more`. -/
def matchSepOneOrMore (element separator : PegExpr) (fuel pos : Nat) : Eval ParseOutcome :=
  matchFirst eval ctx scope element pos fun next value => do
    let (cur, values) ← separatedLoop eval ctx scope element separator false fuel next [value]
    pure (.success cur (.node "sep_one_or_more" values) false)

/-- `match_interspersed`. -/
def matchInterspersed (element separator : PegExpr) (fuel pos : Nat) : Eval ParseOutcome :=
  matchFirst eval ctx scope element pos fun next value => do
    let (cur, values) ← separatedLoop eval ctx scope element separator true fuel next [value]
    pure (.success cur (.node "interspersed" values) false)

/-! ## Operator precedence -/

/-- The first operator of a level that matches. -/
def peekOperators (pos : Nat) : List PegExpr → Eval (Option (ParseValue × Nat))
  | [] => pure none
  | op :: ops => do
    let saved ← specCheckpoint
    let outcome ← eval ctx scope op pos
    specRollback saved
    match outcome with
    | .success stop value _ => pure (some (value, stop))
    | .failure _ _ => peekOperators pos ops

/-- The operators of a level that start something: of a ternary level the first one. -/
def leadingOperators (level : Fixity × List PegExpr) : Eval (List PegExpr) :=
  if level.1 = .ternary then
    match level.2 with
    | op :: _ => pure [op]
    | [] => throw .index
  else pure level.2

/-- `peek_prec_op`: value, end and level of the operator. -/
def peekPrecOp (pos : Nat) (want : List Fixity) :
    List (Fixity × List PegExpr) → Nat → Eval (Option (ParseValue × Nat × Nat × Fixity))
  | [], _ => pure none
  | level :: levels, prec =>
    if level.1 ∈ want then do
      let ops ← leadingOperators level
      match ← peekOperators eval ctx scope pos ops with
      | some (value, stop) => pure (some (value, stop, prec, level.1))
      | none => peekPrecOp pos want levels (prec + 1)
    else peekPrecOp pos want levels (prec + 1)

/-- The closing operator of a ternary level. -/
def closingOperator (levels : List (Fixity × List PegExpr)) (prec : Nat) : Eval PegExpr :=
  match (levels[prec]?).bind fun level => level.2[1]? with
  | some op => pure op
  | none => throw .index

/-- Whether a second operator of a non-associative level follows. -/
def nonAssocChained (levels : List (Fixity × List PegExpr)) (fixity : Fixity) (prec cur : Nat) :
    Eval Bool :=
  if fixity = .infixNon then do
    match ← peekPrecOp eval ctx scope cur [.infixNon] levels 0 with
    | some (_, _, nextPrec, _) => pure (nextPrec == prec)
    | none => pure false
  else pure false

/-- The fixities of operators behind an operand. -/
def ledFixities : List Fixity := [.infixLeft, .infixRight, .infixNon, .postfixOp, .ternary]

mutual

/-- `parse_precedence_bp`, up to its first operand. -/
def precedenceBp (operand : PegExpr) (levels : List (Fixity × List PegExpr)) :
    Nat → Nat → Nat → Eval ParseOutcome
  | 0, _, _ => throw .fuel
  | n + 1, minBp, pos => do
    match ← peekPrecOp eval ctx scope pos [.prefixOp] levels 0 with
    | some (opValue, opEnd, prec, _) => do
      match ← precedenceBp operand levels n prec opEnd with
      | .success stop value _ =>
        precedenceLed operand levels n minBp (.node "unary_prefix" [opValue, value]) stop
      | .failure _ _ => failExpecting opEnd "operand after prefix operator"
    | none => do
      match ← eval ctx scope operand pos with
      | .success stop value _ => precedenceLed operand levels n minBp value stop
      | .failure fp cut => pure (.failure fp cut)

/-- The loop of `parse_precedence_bp`. -/
def precedenceLed (operand : PegExpr) (levels : List (Fixity × List PegExpr)) :
    Nat → Nat → ParseValue → Nat → Eval ParseOutcome
  | 0, _, _, _ => throw .fuel
  | n + 1, minBp, lhs, cur => do
    match ← peekPrecOp eval ctx scope cur ledFixities levels 0 with
    | none => pure (.success cur lhs false)
    | some (opValue, opEnd, prec, fixity) =>
      if prec < minBp then pure (.success cur lhs false)
      else
        match fixity with
        | .postfixOp =>
          precedenceLed operand levels n minBp (.node "unary_postfix" [lhs, opValue]) opEnd
        | .infixLeft | .infixRight | .infixNon => do
          match ← precedenceBp operand levels n
              (if fixity = .infixRight then prec else prec + 1) opEnd with
          | .success rhsEnd rhs _ => do
            let chained ← nonAssocChained eval ctx scope levels fixity prec rhsEnd
            if chained then
              failExpecting rhsEnd "no chaining of a non-associative operator"
            else
              precedenceLed operand levels n minBp (.node "binop" [lhs, opValue, rhs]) rhsEnd
          | .failure _ _ => failExpecting opEnd "operand after infix operator"
        | .ternary => do
          let close ← closingOperator levels prec
          match ← precedenceBp operand levels n 0 opEnd with
          | .failure _ _ => failExpecting opEnd "expression after '?'"
          | .success thenEnd thenValue _ =>
            match ← eval ctx scope close thenEnd with
            | .failure _ _ => failExpecting thenEnd "':' of ternary"
            | .success closeEnd _ _ =>
              match ← precedenceBp operand levels n prec closeEnd with
              | .failure _ _ => failExpecting closeEnd "expression after ':'"
              | .success elseEnd elseValue _ =>
                precedenceLed operand levels n minBp
                  (.node "ternary" [lhs, thenValue, elseValue]) elseEnd
        | .prefixOp => throw .index

end

/-! ## Wrappers -/

/-- The text that `match_named` keeps for `backref`. -/
def bindCapture (name : String) (value : ParseValue) : Eval Unit :=
  match value.inner with
  | .text text => modify fun s => { s with captures := replaceEntry name text s.captures }
  | _ => pure ()

/-- `match_named`. -/
def matchNamed (name : String) (child : PegExpr) (pos : Nat) : Eval ParseOutcome := do
  match ← eval ctx scope child pos with
  | .success stop value cut => do
    bindCapture name value
    pure (.success stop (.named name value) cut)
  | .failure fp cut => pure (.failure fp cut)

/-- The label of `match_expected` in place of those at its position. -/
def DiagnosticsState.relabel (d : DiagnosticsState) (pos : Nat) (message : String) :
    DiagnosticsState :=
  { d with expected := d.expected.filter fun entry => entry.1 ≠ pos }.recordExpected pos message

/-- `match_expected`. -/
def matchExpected (message : String) (child : PegExpr) (pos : Nat) : Eval ParseOutcome := do
  let before ← get
  match ← eval ctx scope child pos with
  | .success stop value cut => pure (.success stop value cut)
  | .failure _ _ => do
    let s ← get
    let failPos := if before.diag.furthest < s.diag.furthest then s.diag.furthest else pos
    set { s with diag := s.diag.relabel failPos message }
    pure (.failure failPos false)

/-- `match_no_trivia`. -/
def matchNoTrivia (child : PegExpr) (pos : Nat) : Eval ParseOutcome :=
  eval ctx { scope with triviaOn := false } child pos

/-- `match_with_trivia`. -/
def matchWithTrivia (spec : String) (child : PegExpr) (pos : Nat) : Eval ParseOutcome :=
  match skipStrategyFromConfig ctx.host spec with
  | .ok _ => eval ctx { scope with triviaOverrides := spec :: scope.triviaOverrides } child pos
  | .error e =>
    parseError ("invalid with_trivia spec " ++ debugStr spec ++ ": " ++ e) pos ctx.len none

/-- `match_semantic_action`: the collector lets the value pass. -/
def matchSemanticAction (name : String) (child : PegExpr) (pos : Nat) : Eval ParseOutcome := do
  match ← eval ctx scope child pos with
  | .success stop value cut =>
    if ctx.cfg.observed then pure (.success stop value cut)
    else parseError ("semantic action '" ++ name ++ "' requires a driver") pos stop none
  | .failure fp cut => pure (.failure fp cut)

/-- `match_semantic_predicate`. -/
def matchSemanticPredicate (name : String) (pos : Nat) : Eval ParseOutcome :=
  if ctx.cfg.observed then pure (.success pos .nil false)
  else parseError ("semantic predicate '" ++ name ++ "' requires a driver") pos pos none

/-- `match_semantic_guard`. -/
def matchSemanticGuard (child : PegExpr) (pos : Nat) : Eval ParseOutcome := do
  let saved ← specCheckpoint
  match ← eval ctx scope child pos with
  | .success stop value cut => pure (.success stop value cut)
  | .failure fp cut => do
    specRollback saved
    pure (.failure fp cut)

/-- `match_capture`. -/
def matchCapture (child : PegExpr) (pos : Nat) : Eval ParseOutcome := do
  match ← eval ctx scope child pos with
  | .success stop value cut => pure (.success stop (.spanned value pos stop) cut)
  | .failure fp cut => pure (.failure fp cut)

/-- `fail_message`. -/
def failMessage (expected : List String) (empty : String) : String :=
  if expected = [] then empty else "expected: " ++ ", ".intercalate expected

/-- `match_eager`. -/
def matchEager (child : PegExpr) (pos : Nat) : Eval ParseOutcome := do
  match ← eval ctx scope child pos with
  | .success stop value cut => pure (.success stop value cut)
  | .failure fp _ => do
    let s ← get
    parseError (failMessage s.diag.expectedAtFurthest "eager parse failure") fp ctx.len none

/-- `LOOKBEHIND_MAX`. -/
def lookBehindMax : Nat := 256

/-- Where a match of `match_look_behind` may start, from the position downwards. -/
def lookBehindStarts (pos : Nat) : List Nat :=
  (List.range (min pos lookBehindMax + 1)).map (pos - ·)

/-- The loop of `match_look_behind`: whether a match ends at the position. -/
def lookBehindLoop (child : PegExpr) (pos : Nat) : List Nat → Eval Bool
  | [] => pure false
  | start :: starts =>
    if Boundary ctx.text start then do
      match ← eval ctx scope child start with
      | .success stop _ _ => if stop = pos then pure true else lookBehindLoop child pos starts
      | .failure _ _ => lookBehindLoop child pos starts
    else lookBehindLoop child pos starts

/-- `match_look_behind`. -/
def matchLookBehind (child : PegExpr) (negative : Bool) (pos : Nat) : Eval ParseOutcome := do
  let saved ← specCheckpoint
  let matched ← lookBehindLoop eval ctx scope child pos (lookBehindStarts pos)
  specRollback saved
  if matched != negative then pure (.success pos .nil false)
  else failExpecting pos (if negative then "no lookbehind match" else "lookbehind match")

end Matchers

end Caap.Peg
