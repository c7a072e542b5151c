/-
  Caap.Peg.Compile

  `CompiledGrammar::compile` and what it takes from the grammar analysis: the rules at the
  left edge of an expression and the cycles they form, the least advance of a growth step
  and the first characters by which a choice is dispatched.
-/

import Caap.Lib.Closure
import Caap.Peg.Analysis
import Caap.Peg.Terminals

namespace Caap.Peg

open Lib

/-- `is_match("")` of a pattern. -/
def Host.matchesEmpty (host : Host) : MatchesEmpty := fun pattern => (host.regexFind pattern []).isSome

/-! ## Left references -/

mutual

/-- `collect_left_refs_impl`. -/
def PegExpr.leftRefs (matchesEmpty : MatchesEmpty) (nullableRules : List String) :
    PegExpr → List String
  | .ref name => [name]
  | .sequence parts => leftRefsSequence matchesEmpty nullableRules parts
  | .choice alternatives => leftRefsChoice matchesEmpty nullableRules alternatives
  | .sepOneOrMore element _ | .interspersed element _ => element.leftRefs matchesEmpty nullableRules
  | .precedence operand _ => operand.leftRefs matchesEmpty nullableRules
  | .named _ n | .expected _ n | .semanticAction _ n | .semanticGuard _ n | .capture _ n =>
    n.leftRefs matchesEmpty nullableRules
  | .and n | .not n | .lookBehind n _ | .optional n | .oneOrMore n | .zeroOrMore n
  | .repeated n _ _ | .noTrivia n | .withTrivia _ n | .eager n =>
    n.leftRefs matchesEmpty nullableRules
  | _ => []

/-- The left references of a sequence: those of its parts up to the first one that is not
    nullable. -/
def leftRefsSequence (matchesEmpty : MatchesEmpty) (nullableRules : List String) :
    List PegExpr → List String
  | [] => []
  | part :: parts =>
    part.leftRefs matchesEmpty nullableRules ++
      if part.nullable matchesEmpty nullableRules then
        leftRefsSequence matchesEmpty nullableRules parts
      else []

/-- The left references of each alternative. -/
def leftRefsChoice (matchesEmpty : MatchesEmpty) (nullableRules : List String) :
    List PegExpr → List String
  | [] => []
  | alternative :: alternatives =>
    alternative.leftRefs matchesEmpty nullableRules ++
      leftRefsChoice matchesEmpty nullableRules alternatives

end

/-- The names of the rules. -/
def Grammar.names (g : Grammar) : List String := g.rules.map (·.name)

/-- `left_refs_graph` of `analyze_grammar_with_refs`. -/
def Grammar.leftRefsGraph (matchesEmpty : MatchesEmpty) (g : Grammar) : List (String × List String) :=
  g.bodies.map fun rule =>
    (rule.1, (rule.2.leftRefs matchesEmpty (g.nullableRules matchesEmpty)).filter g.names.contains)

/-- The graph has an edge. -/
def Grammar.leftEdge (matchesEmpty : MatchesEmpty) (g : Grammar) (a b : String) : Bool :=
  ((g.leftRefsGraph matchesEmpty).lookup a).any fun targets => targets.contains b

/-- The rules from which a rule leads to itself: the members of the components that
    `find_left_recursive_sccs` keeps. -/
def Grammar.leftRecursive (matchesEmpty : MatchesEmpty) (g : Grammar) : List String :=
  g.names.filter fun name => leads (g.leftEdge matchesEmpty) g.names name name

/-- The component of a left-recursive rule. -/
def Grammar.leftComponent (matchesEmpty : MatchesEmpty) (g : Grammar) (name : String) : List String :=
  sort ((g.leftRecursive matchesEmpty).filter fun other =>
    leads (g.leftEdge matchesEmpty) g.names name other &&
      leads (g.leftEdge matchesEmpty) g.names other name)

/-- The order of the components: by length, then by members. -/
def componentLe (a b : List String) : Prop := a.length < b.length ∨ (a.length = b.length ∧ a ≤ b)

instance componentLeDecidable : DecidableRel componentLe :=
  fun a b => inferInstanceAs (Decidable (a.length < b.length ∨ (a.length = b.length ∧ a ≤ b)))

/-- `left_recursive_sccs`.  The components are given by the paths between their members,
    where the source runs Tarjan's algorithm. -/
def Grammar.leftRecursiveSccs (matchesEmpty : MatchesEmpty) (g : Grammar) : List (List String) :=
  ((g.leftRecursive matchesEmpty).map (g.leftComponent matchesEmpty)).dedup.insertionSort componentLe

/-- `sequence_lr_min_step_impl`. -/
def sequenceLrMinStep (scc : List String) : List PegExpr → Option Nat
  | .ref name :: .literal text :: _ => if scc.contains name then some (max (strLen text) 1) else none
  | _ => none

mutual

/-- `rule_lr_min_step_impl`. -/
def PegExpr.lrMinStep (scc : List String) : PegExpr → Nat
  | .choice alternatives => lrMinStepChoice scc alternatives
  | .sequence parts => max 1 ((sequenceLrMinStep scc parts).getD 1)
  | _ => 1

/-- The greatest step of the alternatives. -/
def lrMinStepChoice (scc : List String) : List PegExpr → Nat
  | [] => 1
  | alternative :: alternatives =>
    max (alternative.lrMinStep scc) (lrMinStepChoice scc alternatives)

end

/-! ## First characters -/

/-- `char::from_u32`. -/
def charFromU32 (code : Nat) : Option Char :=
  if code.isValidChar then some (Char.ofNat code) else none

/-- The code points of a range of a class, up to 256 characters in all. -/
def pushClassCodes : Nat → Nat → List Char → Option (List Char)
  | 0, _, chars => some chars
  | n + 1, code, chars =>
    if 256 ≤ chars.length then none
    else pushClassCodes n (code + 1) (chars ++ (charFromU32 code).toList)

/-- The characters of a class that is not negated. -/
def pushClassRanges : List (Char × Char) → List Char → Option (List Char)
  | [], chars => some chars
  | range :: ranges, chars => do
    let chars ← pushClassCodes (range.2.toNat + 1 - range.1.toNat) range.1.toNat chars
    pushClassRanges ranges chars

/-- The escapes that the first characters of a pattern know. -/
def unescapeFirst : Char → Char
  | 't' => '\t'
  | 'n' => '\n'
  | 'r' => '\r'
  | c => c

/-- A character of a class in a pattern, and what follows it. -/
def classItem : List Char → Option (Char × List Char)
  | [] => none
  | '\\' :: c :: it => some (unescapeFirst c, it)
  | '\\' :: [] => none
  | c :: it => some (c, it)

/-- The loop of `parse_char_class_first_chars`. -/
def classFirstChars : Nat → List Char → List Char → Option (List Char)
  | 0, _, chars => some chars
  | _ + 1, [], chars => some chars
  | n + 1, c :: it, chars =>
    if c = ']' then some chars
    else do
      let (decoded, it) ← classItem (c :: it)
      match it with
      | '-' :: [] => some chars
      | '-' :: ']' :: _ => some (chars ++ [decoded, '-'])
      | '-' :: stop :: it => do
        let (stop, it) ← classItem (stop :: it)
        let codes := (List.range (stop.toNat + 1 - decoded.toNat)).map (· + decoded.toNat)
        classFirstChars n it (chars ++ codes.filterMap charFromU32)
      | it => classFirstChars n it (chars ++ [decoded])

/-- `parse_char_class_first_chars`, behind the bracket. -/
def parseCharClassFirstChars (inner : List Char) : Option (List Char) :=
  if inner.head? = some '^' then none
  else (classFirstChars inner.length inner []).filter fun chars => !chars.isEmpty

/-- `parse_regex_first_chars`. -/
def parseRegexFirstChars : List Char → Option (List Char)
  | [] => some []
  | '-' :: '?' :: rest => (parseRegexFirstChars rest).map fun chars => '-' :: chars
  | '[' :: inner => parseCharClassFirstChars inner
  | '\\' :: c :: _ => some [unescapeFirst c]
  | first :: _ => if "^$.()|*+?\x7b".toList.contains first then none else some [first]

mutual

/-- `expr_first_chars_impl`, with the empty maps that `compile` hands it. -/
def PegExpr.firstChars (matchesEmpty : MatchesEmpty) : PegExpr → Option (List Char)
  | .literal s | .hardKeyword s | .softKeyword s => some s.toList.head?.toList
  | .regex pattern => parseRegexFirstChars pattern.toList
  | .charClass cls => if cls.negated then none else pushClassRanges cls.ranges []
  | .sequence items => firstCharsSequence matchesEmpty items
  | .choice alternatives => firstCharsChoice matchesEmpty alternatives
  | .named _ n | .expected _ n | .semanticAction _ n | .semanticGuard _ n | .capture _ n =>
    n.firstChars matchesEmpty
  | .and n | .eager n | .oneOrMore n | .zeroOrMore n | .repeated n _ _ | .optional n =>
    n.firstChars matchesEmpty
  | .sepOneOrMore element _ | .interspersed element _ => element.firstChars matchesEmpty
  | _ => none

/-- The first characters of a sequence, up to the first item that is not nullable. -/
def firstCharsSequence (matchesEmpty : MatchesEmpty) : List PegExpr → Option (List Char)
  | [] => some []
  | item :: items => do
    let chars ← item.firstChars matchesEmpty
    if item.nullable matchesEmpty [] then
      let more ← firstCharsSequence matchesEmpty items
      pure (chars ++ more)
    else pure chars

/-- The first characters of each alternative. -/
def firstCharsChoice (matchesEmpty : MatchesEmpty) : List PegExpr → Option (List Char)
  | [] => some []
  | alternative :: alternatives => do
    let chars ← alternative.firstChars matchesEmpty
    let more ← firstCharsChoice matchesEmpty alternatives
    pure (chars ++ more)

end

/-- `dispatch.entry(c).or_default().push(number)`. -/
def addDispatch (table : List (Char × List Nat)) (c : Char) (number : Nat) : List (Char × List Nat) :=
  replaceEntry c ((table.lookup c).getD [] ++ [number]) table

/-- What an alternative with its number adds to the table. -/
def dispatchAlternative (matchesEmpty : MatchesEmpty) (dispatch : ChoiceDispatch)
    (entry : PegExpr × Nat) : ChoiceDispatch :=
  if entry.1.nullable matchesEmpty [] then (dispatch.1, dispatch.2 ++ [entry.2 + 1])
  else
    match entry.1.firstChars matchesEmpty with
    | none | some [] => (dispatch.1, dispatch.2 ++ [entry.2 + 1])
    | some chars =>
      (chars.foldl (fun table c => addDispatch table c (entry.2 + 1)) dispatch.1, dispatch.2)

/-- `compute_dispatch_from_choice_expr`. -/
def computeDispatch (matchesEmpty : MatchesEmpty) (alternatives : List PegExpr) :
    Option ChoiceDispatch :=
  let dispatch := alternatives.zipIdx.foldl (dispatchAlternative matchesEmpty) ([], [])
  if dispatch.1.isEmpty then none else some dispatch

/-- The entry of a rule in `rule_dispatch`. -/
def ruleDispatchEntry (matchesEmpty : MatchesEmpty) (rule : String × PegExpr) :
    Option (String × ChoiceDispatch) :=
  match rule.2 with
  | .choice alternatives =>
    (computeDispatch matchesEmpty alternatives).map fun dispatch => (rule.1, dispatch)
  | _ => none

/-! ## Compilation -/

/-- The loop over the rules of `compile`: no name twice and no rule that is invalid. -/
def checkRules (sourceLen : Nat) : List GrammarRule → List String → Except ParseError Unit
  | [], _ => .ok ()
  | rule :: rules, seen =>
    if seen.contains rule.name then
      .error ⟨"duplicate grammar rule '" ++ rule.name ++ "'", 0, sourceLen, none⟩
    else
      match rule.expr with
      | .invalid message => .error ⟨message, 0, sourceLen, none⟩
      | _ => checkRules sourceLen rules (rule.name :: seen)

/-- `CompiledGrammar::compile`, for a grammar of `sourceLen` bytes whose imports are
    compiled. -/
def Grammar.compile (host : Host) (sourceLen : Nat) (imports : List (String × CompiledGrammar))
    (g : Grammar) : Except ParseError CompiledGrammar := do
  let sccs := g.leftRecursiveSccs host.matchesEmpty
  checkRules sourceLen g.rules []
  if g.names.contains g.startRule then
    .ok {
      rules := g.bodies
      ruleParams := (g.rules.filter fun rule => !rule.params.isEmpty).map fun rule =>
        (rule.name, rule.params)
      imports := imports
      leftRecursiveRules := sccs.flatten
      lrMinStep := sccs.flatMap fun scc => scc.filterMap fun name =>
        (g.bodies.lookup name).map fun body => (name, max (body.lrMinStep scc) 1)
      ruleDispatch := g.bodies.filterMap (ruleDispatchEntry host.matchesEmpty)
      ruleScc := sccs.zipIdx.flatMap fun entry => entry.1.map fun name => (name, entry.2) }
  else .error ⟨"missing start rule '" ++ g.startRule ++ "'", 0, sourceLen, none⟩

end Caap.Peg
