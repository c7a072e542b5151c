/-
  Caap.Peg.Expr

  The expression trees of the parser (`expr.rs`) and the values it returns (`types.rs`).
  A regular expression is kept as its pattern; what it matches is a parameter of the
  engine.
-/

import Mathlib.Data.List.Basic

namespace Caap.Peg

/-- `CharClass`: sorted, merged, inclusive ranges. -/
structure CharClass where
  negated : Bool
  ranges : List (Char × Char)
  deriving DecidableEq, Repr

/-- `CharClass::contains`. -/
def CharClass.contains (cls : CharClass) (c : Char) : Bool :=
  (cls.ranges.any fun range => range.1 ≤ c && c ≤ range.2) != cls.negated

/-- `Fixity`. -/
inductive Fixity where
  | infixLeft | infixRight | infixNon | prefixOp | postfixOp | ternary
  deriving DecidableEq, Repr

/-- `PegExpr`.  A precedence level is its fixity and its operators. -/
inductive PegExpr where
  | literal (value : String)
  | dot
  | regex (pattern : String)
  | charClass (cls : CharClass)
  | recover (syncs : List String)
  | ref (name : String)
  | sequence (items : List PegExpr)
  | choice (alternatives : List PegExpr)
  | and (expr : PegExpr)
  | not (expr : PegExpr)
  | cut
  | optional (expr : PegExpr)
  | oneOrMore (expr : PegExpr)
  | zeroOrMore (expr : PegExpr)
  | repeated (expr : PegExpr) (min : Nat) (max : Option Nat)
  | precedence (operand : PegExpr) (levels : List (Fixity × List PegExpr))
  | sepOneOrMore (element separator : PegExpr)
  | interspersed (element separator : PegExpr)
  | named (name : String) (expr : PegExpr)
  | expected (message : String) (expr : PegExpr)
  | noTrivia (expr : PegExpr)
  | withTrivia (spec : String) (expr : PegExpr)
  | newline
  | indent
  | dedent
  | semanticAction (name : String) (expr : PegExpr)
  | semanticPredicate (name : String)
  | semanticGuard (name : String) (expr : PegExpr)
  | capture (label : String) (expr : PegExpr)
  | island (start stop : String) (includeDelims : Bool)
  | rawBlock (start stop delimKind : String)
  | eager (expr : PegExpr)
  | lookBehind (expr : PegExpr) (negative : Bool)
  | backref (name : String)
  | importedRef (grammarName ruleName : String)
  | parameter (name : String)
  | call (rule : String) (args : List PegExpr)
  | hardKeyword (keyword : String)
  | softKeyword (keyword : String)
  | grammarScope (grammarName : String) (expr : PegExpr)
  | tokenRef (kind text : Option String)
  | invalid (message : String)

/-- The expressions an expression is built from. -/
def PegExpr.parts : PegExpr → List PegExpr
  | .sequence items => items
  | .choice alternatives => alternatives
  | .and e | .not e | .optional e | .oneOrMore e | .zeroOrMore e | .repeated e _ _ => [e]
  | .precedence operand levels => operand :: levels.flatMap Prod.snd
  | .sepOneOrMore element separator | .interspersed element separator => [element, separator]
  | .named _ e | .expected _ e | .noTrivia e | .withTrivia _ e | .semanticAction _ e
  | .semanticGuard _ e | .capture _ e | .eager e | .lookBehind e _ | .grammarScope _ e => [e]
  | .call _ args => args
  | _ => []

/-- The property holds of the expression and of everything in it. -/
inductive PegExpr.Each (p : PegExpr → Prop) : PegExpr → Prop where
  | mk {e : PegExpr} (self : p e) (parts : ∀ d ∈ e.parts, PegExpr.Each p d) : PegExpr.Each p e

theorem PegExpr.Each.self {p : PegExpr → Prop} {e : PegExpr} (h : e.Each p) : p e := by
  cases h with
  | mk hself _ => exact hself

theorem PegExpr.Each.part {p : PegExpr → Prop} {e d : PegExpr} (h : e.Each p) (hd : d ∈ e.parts) :
    d.Each p := by
  cases h with
  | mk _ hparts => exact hparts d hd

/-- `ParseValue`. -/
inductive ParseValue where
  | nil
  | text (text : String)
  | number (n : Int64)
  | node (tag : String) (children : List ParseValue)
  | named (name : String) (value : ParseValue)
  | spanned (value : ParseValue) (start stop : Nat)

namespace ParseValue

mutual

/-- Equality of values. -/
def beq : ParseValue → ParseValue → Bool
  | .nil, .nil => true
  | .text a, .text b => a == b
  | .number a, .number b => a == b
  | .node a as, .node b bs => a == b && beqList as bs
  | .named a v, .named b w => a == b && beq v w
  | .spanned v i j, .spanned w k l => beq v w && i == k && j == l
  | _, _ => false

/-- Equality of lists of values. -/
def beqList : List ParseValue → List ParseValue → Bool
  | [], [] => true
  | v :: vs, w :: ws => beq v w && beqList vs ws
  | _, _ => false

end

mutual

theorem beq_iff (v w : ParseValue) : beq v w = true ↔ v = w := by
  match v, w with
  | .nil, w | .text a, w | .number a, w => cases w <;> simp [beq]
  | .node a as, w =>
    cases w with
    | node b bs => simp [beq, beqList_iff as bs]
    | _ => simp [beq]
  | .named a v, w =>
    cases w with
    | named b w => simp [beq, beq_iff v w]
    | _ => simp [beq]
  | .spanned v i j, w =>
    cases w with
    | spanned w k l => simp [beq, beq_iff v w, and_assoc]
    | _ => simp [beq]

theorem beqList_iff (vs ws : List ParseValue) : beqList vs ws = true ↔ vs = ws := by
  match vs, ws with
  | [], [] | [], w :: ws | v :: vs, [] => simp [beqList]
  | v :: vs, w :: ws => simp [beqList, beq_iff v w, beqList_iff vs ws]

end

instance : DecidableEq ParseValue := fun v w => decidable_of_iff _ (beq_iff v w)

end ParseValue

/-- `ParseValue::inner`: the value below the spans. -/
def ParseValue.inner : ParseValue → ParseValue
  | .spanned value _ _ => value.inner
  | value => value

/-- `GrammarRule`, with the fields that the analysis and the engine read. -/
structure GrammarRule where
  name : String
  params : List String
  expr : PegExpr

/-- `Grammar`, likewise; its metadata and its imports are given to the engine. -/
structure Grammar where
  startRule : String
  rules : List GrammarRule

end Caap.Peg
