/-
  Caap.Peg.Loops

  The loops of the engine as loops of rounds: what one round of each does, and that the
  source's loop is the loop of these rounds.
-/

import Caap.Lib.Loop
import Caap.Peg.Evaluator

namespace Caap.Peg

open Lib

variable (eval : ExprEval) (ctx : ParseCtx) (scope : Scope)

/-! ## One round -/

/-- Where a repetition is, and what it has collected. -/
abbrev Collected := Nat × List ParseValue

/-- A round of `repeatLoop`. -/
def repeatStep (child : PegExpr) (max : Option Nat) (_ : Nat) (a : Collected) :
    Eval (Collected ⊕ Collected) :=
  if max.any fun mx => mx ≤ a.2.length then pure (.inl a)
  else do
    let saved ← specCheckpoint
    match ← eval ctx scope child a.1 with
    | .success next value _ =>
      if a.1 < next then pure (.inr (next, a.2 ++ [value]))
      else do
        specRollback saved
        pure (.inl a)
    | .failure _ _ => do
      specRollback saved
      pure (.inl a)

/-- A round of `separatedLoop`. -/
def separatedStep (element separator : PegExpr) (keepSeparators : Bool) (_ : Nat) (a : Collected) :
    Eval (Collected ⊕ Collected) := do
  let saved ← specCheckpoint
  match ← eval ctx scope separator a.1 with
  | .failure _ _ => do
    specRollback saved
    pure (.inl a)
  | .success sepPos sepValue _ =>
    match ← eval ctx scope element sepPos with
    | .failure _ _ => do
      specRollback saved
      pure (.inl a)
    | .success next value _ =>
      pure (.inr (next, a.2 ++ if keepSeparators then [sepValue, value] else [value]))

/-- A round of `precedenceLed`, which parses the operands on the right with the rounds left. -/
def ledStep (operand : PegExpr) (levels : List (Fixity × List PegExpr)) (minBp n : Nat)
    (a : Nat × ParseValue) : Eval (ParseOutcome ⊕ (Nat × ParseValue)) := do
  match ← peekPrecOp eval ctx scope a.1 ledFixities levels 0 with
  | none => pure (.inl (.success a.1 a.2 false))
  | some (opValue, opEnd, prec, fixity) =>
    if prec < minBp then pure (.inl (.success a.1 a.2 false))
    else
      match fixity with
      | .postfixOp => pure (.inr (opEnd, .node "unary_postfix" [a.2, opValue]))
      | .infixLeft | .infixRight | .infixNon => do
        match ← precedenceBp eval ctx scope operand levels n
            (if fixity = .infixRight then prec else prec + 1) opEnd with
        | .success rhsEnd rhs _ => do
          let chained ← nonAssocChained eval ctx scope levels fixity prec rhsEnd
          if chained then
            .inl <$> failExpecting rhsEnd "no chaining of a non-associative operator"
          else pure (.inr (rhsEnd, .node "binop" [a.2, opValue, rhs]))
        | .failure _ _ => .inl <$> failExpecting opEnd "operand after infix operator"
      | .ternary => do
        let close ← closingOperator levels prec
        match ← precedenceBp eval ctx scope operand levels n 0 opEnd with
        | .failure _ _ => .inl <$> failExpecting opEnd "expression after '?'"
        | .success thenEnd thenValue _ =>
          match ← eval ctx scope close thenEnd with
          | .failure _ _ => .inl <$> failExpecting thenEnd "':' of ternary"
          | .success closeEnd _ _ =>
            match ← precedenceBp eval ctx scope operand levels n prec closeEnd with
            | .failure _ _ => .inl <$> failExpecting closeEnd "expression after ':'"
            | .success elseEnd elseValue _ =>
              pure (.inr (elseEnd, .node "ternary" [a.2, thenValue, elseValue]))
      | .prefixOp => throw .index

/-- A round of `growLoop`. -/
def growStep (rule : String) (body : PegExpr) (pos : Nat) (_ : Nat) (best : ParseOutcome) :
    Eval (ParseOutcome ⊕ ParseOutcome) := do
  prunePeerMemos ctx rule pos
  let result ← parseRuleBody eval ctx scope rule body pos
  if result.stop ≤ best.stop || !result.isSuccess then do
    memoInsert ctx (rule, pos) best
    pure (.inl best)
  else do
    memoInsert ctx (rule, pos) result
    pure (.inr result)

/-! ## The loops -/

theorem repeatLoop_eq (child : PegExpr) (max : Option Nat) (n cur : Nat) (values : List ParseValue) :
    repeatLoop eval ctx scope child max n cur values =
      loop (repeatStep eval ctx scope child max) (fun _ => throw .fuel) n (cur, values) := by
  induction n generalizing cur values with
  | zero => rfl
  | succ n ih =>
    rw [repeatLoop, loop, repeatStep]
    split_ifs
    · rfl
    · simp only [bind_assoc]
      refine bind_congr fun saved => bind_congr fun outcome => ?_
      cases outcome with
      | failure fp cut => rfl
      | success next value cut =>
        by_cases hlt : cur < next
        · simp only [if_pos hlt, ih, pure_bind]
        · simp only [if_neg hlt, bind_assoc, pure_bind]

theorem separatedLoop_eq (element separator : PegExpr) (keepSeparators : Bool) (n cur : Nat)
    (values : List ParseValue) :
    separatedLoop eval ctx scope element separator keepSeparators n cur values =
      loop (separatedStep eval ctx scope element separator keepSeparators) (fun _ => throw .fuel) n
        (cur, values) := by
  induction n generalizing cur values with
  | zero => rfl
  | succ n ih =>
    rw [separatedLoop, loop, separatedStep]
    simp only [bind_assoc]
    refine bind_congr fun saved => bind_congr fun sep => ?_
    cases sep with
    | failure fp cut => rfl
    | success sepPos sepValue cut =>
      simp only [bind_assoc]
      refine bind_congr fun outcome => ?_
      cases outcome with
      | failure fp cut => rfl
      | success next value cut => simp only [ih, pure_bind]

theorem growLoop_eq (rule : String) (body : PegExpr) (pos n : Nat) (best : ParseOutcome) :
    growLoop eval ctx scope rule body pos n best =
      loop (growStep eval ctx scope rule body pos) (fun _ =>
        parseError ("internal parser error: rule '" ++ rule ++
          "' left-recursive growth exceeded input bounds") pos ctx.len none) n best := by
  induction n generalizing best with
  | zero => rfl
  | succ n ih =>
    rw [growLoop, loop, growStep]
    simp only [bind_assoc]
    refine bind_congr fun _ => bind_congr fun result => ?_
    split_ifs
    · simp only [bind_assoc, pure_bind]
    · simp only [bind_assoc, pure_bind, ih]

theorem precedenceLed_eq (operand : PegExpr) (levels : List (Fixity × List PegExpr)) (minBp n cur : Nat)
    (lhs : ParseValue) : precedenceLed eval ctx scope operand levels n minBp lhs cur =
      loop (ledStep eval ctx scope operand levels minBp) (fun _ => throw .fuel) n (cur, lhs) := by
  induction n generalizing cur lhs with
  | zero => rw [precedenceLed, loop]
  | succ n ih =>
    rw [precedenceLed, loop, ledStep]
    simp only [bind_assoc]
    refine bind_congr fun found => ?_
    rcases found with _ | ⟨opValue, opEnd, prec, fixity⟩
    · rfl
    · by_cases hprec : prec < minBp
      · simp only [if_pos hprec, pure_bind]
      simp only [if_neg hprec]
      cases fixity with
      | postfixOp => simp only [ih, pure_bind]
      | prefixOp => rfl
      | infixLeft | infixRight | infixNon =>
        simp only [bind_assoc]
        refine bind_congr fun outcome => ?_
        cases outcome with
        | failure fp cut => simp only [bind_map_left, bind_pure]
        | success rhsEnd rhs cut =>
          simp only [bind_assoc]
          refine bind_congr fun chained => ?_
          cases chained
          · simp only [ih, pure_bind, Bool.false_eq_true, if_false]
          · simp only [if_true, bind_map_left, bind_pure]
      | ternary =>
        simp only [bind_assoc]
        refine bind_congr fun close => bind_congr fun outcome => ?_
        cases outcome with
        | failure fp cut => simp only [bind_map_left, bind_pure]
        | success thenEnd thenValue cut =>
          simp only [bind_assoc]
          refine bind_congr fun closed => ?_
          cases closed with
          | failure fp cut => simp only [bind_map_left, bind_pure]
          | success closeEnd closeValue cut =>
            simp only [bind_assoc]
            refine bind_congr fun outcome => ?_
            cases outcome with
            | failure fp cut => simp only [bind_map_left, bind_pure]
            | success elseEnd elseValue cut => simp only [ih, pure_bind]

end Caap.Peg
