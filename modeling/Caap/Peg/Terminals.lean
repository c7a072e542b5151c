/-
  Caap.Peg.Terminals

  The state of the evaluator of `parser_engine` and the matchers that evaluate no other
  expression.  There is no driver but one that watches the rules and lets everything
  proceed (the collector of `parse_ast`).

  What a call saves and restores on every way back (the trivia mode, the bindings of
  parameters, the depth, the rules being evaluated, the components being grown) is an
  argument (`Scope`); what outlives a call is the state (`EvalState`), also when the call
  ends with an error.
-/

import Caap.Error
import Caap.Lib.Sorting
import Caap.Peg.Expr
import Caap.Peg.Skip

namespace Caap.Peg

open Lib

/-! ## Outcomes, state and configuration -/

/-- `ParseOutcome`. -/
inductive ParseOutcome where
  | success (pos : Nat) (value : ParseValue) (cut : Bool)
  | failure (pos : Nat) (cut : Bool)
  deriving DecidableEq

/-- `is_success`. -/
def ParseOutcome.isSuccess : ParseOutcome → Bool
  | .success _ _ _ => true
  | .failure _ _ => false

/-- `outcome_end`. -/
def ParseOutcome.stop : ParseOutcome → Nat
  | .success pos _ _ => pos
  | .failure pos _ => pos

/-- `DiagnosticsState`: the labels with their positions. -/
structure DiagnosticsState where
  furthest : Nat
  expected : List (Nat × String)
  deriving DecidableEq

/-- `record_expected`. -/
def DiagnosticsState.recordExpected (d : DiagnosticsState) (pos : Nat) (label : String) :
    DiagnosticsState :=
  if d.furthest ≤ pos then ⟨pos, (pos, label) :: d.expected⟩ else d

/-- `expected_at_furthest`. -/
def DiagnosticsState.expectedAtFurthest (d : DiagnosticsState) : List String :=
  sortDedup ((d.expected.filter fun entry => entry.1 = d.furthest).map Prod.snd)

/-- `LayoutState`; the stack has its top in front. -/
structure LayoutState where
  indentStack : List Nat
  bracketDepth : Nat
  atLineStart : Bool
  indentationEnabled : Bool
  deriving DecidableEq

/-- `LayoutState::new`. -/
def LayoutState.new (indentationEnabled : Bool) : LayoutState :=
  ⟨[0], 0, true, indentationEnabled⟩

/-- `TraceEvent` of `ast.rs`. -/
inductive TraceEvent where
  | enter (rule : String) (pos : Nat)
  | exit (rule : String) (pos : Nat)
  | fail (rule : String) (pos : Nat)
  deriving DecidableEq, Repr

/-- `EvalState`, without what `Scope` holds; the memo table has no two entries for a key.
    `events` is what the collector has seen, and `reentered`, which the source does not
    have, are the rules that were invoked at a position where they were being evaluated. -/
structure EvalState where
  ruleMemo : List ((String × Nat) × ParseOutcome)
  diag : DiagnosticsState
  layout : LayoutState
  captures : List (String × String)
  exprSteps : Nat
  events : List TraceEvent
  reentered : List (String × Nat)
  deriving DecidableEq

/-- The state in which a run starts. -/
def EvalState.new (indentationEnabled : Bool) : EvalState :=
  ⟨[], ⟨0, []⟩, .new indentationEnabled, [], 0, [], []⟩

/-- `LexToken`. -/
structure LexToken where
  kind : String
  text : String
  start : Nat
  stop : Nat
  deriving DecidableEq, Repr

/-- The checks of `validate_lex_tokens` on one token. -/
def validateLexToken (text : List Char) (index previousEnd : Nat) (token : LexToken) :
    Except ParseError Unit :=
  let fail := fun (message : String) (start stop : Nat) =>
    Except.error (ParseError.mk ("lex token[" ++ toString index ++ "] " ++ message) start stop none)
  if token.kind = "" then fail "kind must be non-empty" (min token.start (byteLen text)) (byteLen text)
  else if token.stop ≤ token.start then
    fail "span must be non-empty and ordered" (min token.start (byteLen text)) (byteLen text)
  else if byteLen text < token.stop then
    fail "end exceeds input length" (min token.start (byteLen text)) (byteLen text)
  else if token.start < previousEnd then
    fail "overlaps or is out of order" token.start (byteLen text)
  else if ¬(Boundary text token.start ∧ Boundary text token.stop) then
    fail "span is not on UTF-8 character boundaries" token.start (byteLen text)
  else if (sliceAt text token.start token.stop).map String.ofList ≠ some token.text then
    fail "text does not match input slice" token.start token.stop
  else .ok ()

/-- `validate_lex_tokens`. -/
def validateLexTokens (text : List Char) : List LexToken → Nat → Nat → Except ParseError Unit
  | [], _, _ => .ok ()
  | token :: tokens, index, previousEnd => do
    validateLexToken text index previousEnd token
    validateLexTokens text tokens (index + 1) token.stop

/-- `InvalidRulePolicy`. -/
structure InvalidRulePolicy where
  includeInvalidRules : Bool
  initials : List String
  deriving DecidableEq, Repr

/-- `InvalidRulePolicy::excludes`. -/
def InvalidRulePolicy.excludes (p : InvalidRulePolicy) (rule : String) : Bool :=
  !p.includeInvalidRules && p.initials.any fun initial => initial.toList.isPrefixOf rule.toList

/-- `EvalCfg`; `observed` says that the collector of `parse_ast` is attached. -/
structure EvalCfg where
  useMemo : Bool
  memoRuleLimit : Option Nat
  invalidRulePolicy : InvalidRulePolicy
  trivia : Option Skipper
  lexTokens : Option (List LexToken)
  maxSteps : Nat
  maxDepth : Nat
  observed : Bool
  deriving DecidableEq

/-- `ChoiceDispatch`: numbers of alternatives, from one on, by first character, and those
    that are always tried. -/
abbrev ChoiceDispatch := List (Char × List Nat) × List Nat

/-- `CompiledGrammar`, with what the evaluator reads. -/
structure CompiledGrammar where
  rules : List (String × PegExpr)
  ruleParams : List (String × List String)
  imports : List (String × CompiledGrammar)
  leftRecursiveRules : List String
  lrMinStep : List (String × Nat)
  ruleDispatch : List (String × ChoiceDispatch)
  ruleScc : List (String × Nat)

/-- `ParseCtx` with the configuration. -/
structure ParseCtx where
  compiled : CompiledGrammar
  text : List Char
  host : Host
  cfg : EvalCfg

/-- What a call hands down: stacks have their top in front. -/
structure Scope where
  triviaOn : Bool
  triviaOverrides : List String
  params : List (List (String × PegExpr))
  exprDepth : Nat
  active : List (String × Nat)
  lrGrowing : List (Nat × Nat)

/-- The scope in which a run starts. -/
def Scope.new (triviaOn : Bool) : Scope := ⟨triviaOn, [], [], 0, [], []⟩

/-- Computations of the evaluator. -/
abbrev Eval (α : Type) := ExceptT Stop (StateM EvalState) α

/-- The length of the text. -/
def ParseCtx.len (ctx : ParseCtx) : Nat := byteLen ctx.text

/-! ## Small steps -/

/-- An error. -/
def parseError {α : Type} (message : String) (start stop : Nat) (code : Option String) : Eval α :=
  throw (.error ⟨message, start, stop, code⟩)

/-- `&text[pos..]`. -/
def suffixFrom (ctx : ParseCtx) (pos : Nat) : Eval (List Char) :=
  match suffixAt ctx.text pos with
  | some rest => pure rest
  | none => throw .slice

/-- `&text[start..stop]`. -/
def textBetween (ctx : ParseCtx) (start stop : Nat) : Eval String :=
  match sliceAt ctx.text start stop with
  | some cs => pure (String.ofList cs)
  | none => throw .slice

/-- `diag.record_expected`. -/
def recordExpected (pos : Nat) (label : String) : Eval Unit :=
  modify fun s => { s with diag := s.diag.recordExpected pos label }

/-- The failure that almost every matcher ends with. -/
def failExpecting (pos : Nat) (label : String) : Eval ParseOutcome := do
  recordExpected pos label
  pure (.failure pos false)

/-- `spec_checkpoint`, of which only the captures are left without a driver. -/
def specCheckpoint : Eval (List (String × String)) := do
  let s ← get
  pure s.captures

/-- `spec_rollback`. -/
def specRollback (captures : List (String × String)) : Eval Unit :=
  modify fun s => { s with captures := captures }

/-- An entry of a map that replaces the one for its key. -/
def replaceEntry {κ ν : Type} [DecidableEq κ] (key : κ) (value : ν) (entries : List (κ × ν)) :
    List (κ × ν) :=
  (key, value) :: entries.filter fun entry => entry.1 ≠ key

/-- `memo_insert`. -/
def memoInsert (ctx : ParseCtx) (key : String × Nat) (outcome : ParseOutcome) : Eval Unit := do
  let s ← get
  if !ctx.cfg.useMemo then pure ()
  else if ctx.cfg.memoRuleLimit.all fun limit =>
      (s.ruleMemo.lookup key).isSome || s.ruleMemo.length < limit then
    set { s with ruleMemo := replaceEntry key outcome s.ruleMemo }
  else
    parseError ("parser memo budget exceeded while caching rule " ++ debugStr key.1 ++ " at byte " ++
      toString key.2) key.2 ctx.len none

/-- The skipper in force. -/
def activeSkipper (ctx : ParseCtx) (scope : Scope) : Option Skipper :=
  match scope.triviaOverrides with
  | spec :: _ =>
    match skipStrategyFromConfig ctx.host spec with
    | .ok skipper => skipper
    | .error _ => none
  | [] => ctx.cfg.trivia

/-- `skip_trivia`. -/
def skipTrivia (ctx : ParseCtx) (scope : Scope) (pos : Nat) : Eval Nat :=
  if !scope.triviaOn then pure pos
  else
    match activeSkipper ctx scope with
    | none => pure pos
    | some skipper =>
      match skipper.trySkip ctx.host ctx.text pos with
      | .ok stop => pure stop
      | .error e => throw e

/-! ## Terminals -/

/-- `match_literal`, `match_hard_keyword` and `match_backref` compare with a text. -/
def startsWith (literal : String) (rest : List Char) : Bool := literal.toList.isPrefixOf rest

/-- `literal.len()`. -/
def strLen (literal : String) : Nat := byteLen literal.toList

/-- `match_literal`. -/
def matchLiteral (ctx : ParseCtx) (scope : Scope) (literal : String) (pos : Nat) :
    Eval ParseOutcome := do
  let pos ← skipTrivia ctx scope pos
  let rest ← suffixFrom ctx pos
  if startsWith literal rest then pure (.success (pos + strLen literal) (.text literal) false)
  else failExpecting pos ("literal '" ++ literal ++ "'")

/-- `match_dot`. -/
def matchDot (ctx : ParseCtx) (scope : Scope) (pos : Nat) : Eval ParseOutcome := do
  let pos ← skipTrivia ctx scope pos
  let rest ← suffixFrom ctx pos
  match rest.head? with
  | some c => pure (.success (pos + c.utf8Size) (.text (String.ofList [c])) false)
  | none => failExpecting pos "any character"

/-- `match_regex`. -/
def matchRegex (ctx : ParseCtx) (scope : Scope) (pattern : String) (pos : Nat) :
    Eval ParseOutcome := do
  let pos ← skipTrivia ctx scope pos
  let rest ← suffixFrom ctx pos
  match ctx.host.regexFind pattern rest with
  | some n =>
    pure (.success (pos + byteLen (rest.take n)) (.text (String.ofList (rest.take n))) false)
  | none => failExpecting pos ("/" ++ pattern ++ "/")

/-- `RECOVER_TAG`. -/
def recoverTag : String := "<recovered>"

/-- The end of what `recover` skips. -/
def recoverEnd (ctx : ParseCtx) (syncs : List String) (rest : List Char) (pos : Nat) : Nat :=
  let ends := (syncs.filter fun sync => sync ≠ "").filterMap fun sync =>
    (findText sync.toList rest).map fun off => pos + off + strLen sync
  ends.min?.getD ctx.len

/-- `match_recover`. -/
def matchRecover (ctx : ParseCtx) (syncs : List String) (pos : Nat) : Eval ParseOutcome :=
  if ctx.len ≤ pos then failExpecting pos "recovery point"
  else do
    let rest ← suffixFrom ctx pos
    let stop := recoverEnd ctx syncs rest pos
    let skipped ← textBetween ctx pos stop
    pure (.success stop (.node recoverTag [.text skipped]) false)

/-- `push_class_char`. -/
def classChar (c : Char) : String :=
  if c = '\n' then "\\n"
  else if c = '\t' then "\\t"
  else if c = '\r' then "\\r"
  else if c = '\x00' then "\\0"
  else if c = '\\' ∨ c = ']' ∨ c = '[' ∨ c = '^' ∨ c = '-' then String.ofList ['\\', c]
  else String.ofList [c]

/-- `CharClass::to_source`. -/
def CharClass.toSource (cls : CharClass) : String :=
  "[" ++ (if cls.negated then "^" else "") ++
    String.join (cls.ranges.map fun range =>
      if range.1 = range.2 then classChar range.1
      else classChar range.1 ++ "-" ++ classChar range.2) ++ "]"

/-- `match_char_class`. -/
def matchCharClass (ctx : ParseCtx) (scope : Scope) (cls : CharClass) (pos : Nat) :
    Eval ParseOutcome := do
  let pos ← skipTrivia ctx scope pos
  let rest ← suffixFrom ctx pos
  match rest.head? with
  | some c =>
    if cls.contains c then pure (.success (pos + c.utf8Size) (.text (String.ofList [c])) false)
    else failExpecting pos cls.toSource
  | none => failExpecting pos cls.toSource

/-- `match_hard_keyword`, which `match_soft_keyword` calls. -/
def matchHardKeyword (ctx : ParseCtx) (scope : Scope) (keyword : String) (pos : Nat) :
    Eval ParseOutcome := do
  let pos ← skipTrivia ctx scope pos
  let rest ← suffixFrom ctx pos
  if startsWith keyword rest then do
    let after ← suffixFrom ctx (pos + strLen keyword)
    if after.head?.any fun c => ctx.host.isAlphanumeric c || c == '_' then
      failExpecting pos ("keyword '" ++ keyword ++ "'")
    else pure (.success (pos + strLen keyword) (.text keyword) false)
  else failExpecting pos ("keyword '" ++ keyword ++ "'")

/-- `match_backref`. -/
def matchBackref (ctx : ParseCtx) (scope : Scope) (name : String) (pos : Nat) :
    Eval ParseOutcome := do
  let pos ← skipTrivia ctx scope pos
  let s ← get
  match s.captures.lookup name with
  | some expected =>
    if expected = "" then failExpecting pos ("backref '" ++ name ++ "'")
    else do
      let rest ← suffixFrom ctx pos
      if startsWith expected rest then
        pure (.success (pos + strLen expected) (.text expected) false)
      else failExpecting pos ("backref '" ++ name ++ "'")
  | none => failExpecting pos ("backref '" ++ name ++ "'")

/-- `match_newline_at`. -/
def newlineAt (text : List Char) (pos : Nat) : Option Nat :=
  match charAt text pos with
  | some '\r' => if charAt text (pos + 1) = some '\n' then some (pos + 2) else some (pos + 1)
  | some '\n' => some (pos + 1)
  | _ => none

/-- A blank or a tab. -/
def isHorizontalSpace (c : Char) : Bool := c == ' ' || c == '\t'

/-- The position behind blanks and tabs. -/
def skipHorizontal (text : List Char) (pos : Nat) : Nat :=
  match suffixAt text pos with
  | some rest => pos + spanLen isHorizontalSpace rest
  | none => pos

/-- The width that `measure_indent` returns: a tab counts as four blanks. -/
def indentWidth : List Char → Nat
  | [] => 0
  | c :: cs =>
    if c = ' ' then 1 + indentWidth cs
    else if c = '\t' then 4 + indentWidth cs
    else 0

/-- `measure_indent`. -/
def measureIndent (text : List Char) (pos : Nat) : Nat × Nat :=
  match suffixAt text pos with
  | some rest => (indentWidth rest, pos + spanLen isHorizontalSpace rest)
  | none => (0, pos)

/-- `examined_with_lookahead` slices the text, also when nothing is recorded. -/
def examineLookahead (ctx : ParseCtx) (pos : Nat) : Eval Unit := do
  let _ ← suffixFrom ctx pos
  pure ()

/-- Where `match_newline` looks for the newline. -/
def newlineStart (ctx : ParseCtx) (scope : Scope) (pos : Nat) : Eval Nat := do
  let s ← get
  if s.layout.indentationEnabled && s.layout.bracketDepth == 0 then
    pure (skipHorizontal ctx.text pos)
  else skipTrivia ctx scope pos

/-- `match_newline`. -/
def matchNewline (ctx : ParseCtx) (scope : Scope) (pos : Nat) : Eval ParseOutcome := do
  let cur ← newlineStart ctx scope pos
  match newlineAt ctx.text cur with
  | some stop => do
    modify fun s => { s with layout := { s.layout with atLineStart := true } }
    pure (.success stop (.text "\n") false)
  | none => do
    examineLookahead ctx cur
    failExpecting cur "newline"

/-- The condition under which `match_indent` and `match_dedent` fail at once. -/
def LayoutState.ignoresIndentation (l : LayoutState) : Bool :=
  !l.indentationEnabled || 0 < l.bracketDepth || !l.atLineStart

/-- `match_indent`. -/
def matchIndent (ctx : ParseCtx) (pos : Nat) : Eval ParseOutcome := do
  let s ← get
  if s.layout.ignoresIndentation then failExpecting pos "indent"
  else do
    let (width, stop) := measureIndent ctx.text pos
    examineLookahead ctx stop
    if width ≤ s.layout.indentStack.headD 0 then failExpecting pos "indent"
    else do
      set { s with layout :=
        { s.layout with indentStack := width :: s.layout.indentStack, atLineStart := false } }
      pure (.success stop .nil false)

/-- `match_dedent`. -/
def matchDedent (ctx : ParseCtx) (pos : Nat) : Eval ParseOutcome := do
  let s ← get
  if s.layout.ignoresIndentation then failExpecting pos "dedent"
  else do
    let (width, stop) := measureIndent ctx.text pos
    examineLookahead ctx stop
    match s.layout.indentStack with
    | _ :: target :: rest =>
      if width ≠ target then failExpecting pos "dedent"
      else do
        set { s with layout :=
          { s.layout with indentStack := target :: rest, atLineStart := false } }
        pure (.success stop .nil false)
    | _ => failExpecting pos "dedent"

/-- The value of `match_island`. -/
def islandValue (ctx : ParseCtx) (cur contentStart contentEnd fullEnd : Nat) (includeDelims : Bool) :
    Eval String :=
  if includeDelims then textBetween ctx cur fullEnd else textBetween ctx contentStart contentEnd

/-- `match_island`. -/
def matchIsland (ctx : ParseCtx) (scope : Scope) (start stop : String) (includeDelims : Bool)
    (pos : Nat) : Eval ParseOutcome := do
  let cur ← skipTrivia ctx scope pos
  let rest ← suffixFrom ctx cur
  if startsWith start rest then do
    let contentStart := cur + strLen start
    let content ← suffixFrom ctx contentStart
    match findText stop.toList content with
    | some off => do
      let contentEnd := contentStart + off
      let fullEnd := contentEnd + strLen stop
      let value ← islandValue ctx cur contentStart contentEnd fullEnd includeDelims
      pure (.success fullEnd (.text value) false)
    | none => failExpecting contentStart ("closing '" ++ stop ++ "'")
  else failExpecting cur ("'" ++ start ++ "'")

/-- The scan of `match_raw_block`. -/
def rawBlockScan (ctx : ParseCtx) (start stop delimKind : String) (cur contentStart : Nat) :
    Nat → Nat → Nat → Eval ParseOutcome
  | 0, _, _ => throw .fuel
  | n + 1, depth, scan => do
    let rest ← suffixFrom ctx scan
    match findText start.toList rest, findText stop.toList rest with
    | _, none =>
      parseError ("unterminated raw block (kind=" ++ delimKind ++ ")") cur ctx.len none
    | some o, some c =>
      if o < c then
        rawBlockScan ctx start stop delimKind cur contentStart n (depth + 1)
          (scan + o + strLen start)
      else if depth - 1 = 0 then do
        let content ← textBetween ctx contentStart (scan + c)
        pure (.success (scan + c + strLen stop) (.text content) false)
      else
        rawBlockScan ctx start stop delimKind cur contentStart n (depth - 1)
          (scan + c + strLen stop)
    | none, some c =>
      if depth - 1 = 0 then do
        let content ← textBetween ctx contentStart (scan + c)
        pure (.success (scan + c + strLen stop) (.text content) false)
      else
        rawBlockScan ctx start stop delimKind cur contentStart n (depth - 1)
          (scan + c + strLen stop)

/-- `match_raw_block`. -/
def matchRawBlock (ctx : ParseCtx) (scope : Scope) (start stop delimKind : String) (fuel pos : Nat) :
    Eval ParseOutcome :=
  if start = stop then
    parseError ("raw_block(kind=" ++ delimKind ++ ") requires distinct start/end delimiters; both are " ++
      debugStr start) pos ctx.len (some "raw_block_identical_delimiters")
  else do
    let cur ← skipTrivia ctx scope pos
    let rest ← suffixFrom ctx cur
    if startsWith start rest then
      rawBlockScan ctx start stop delimKind cur (cur + strLen start) fuel 1 (cur + strLen start)
    else failExpecting cur ("'" ++ start ++ "'")

/-- `format_tok_label`. -/
def formatTokLabel : Option String → Option String → String
  | some kind, some text => "tok(" ++ kind ++ "," ++ debugStr text ++ ")"
  | some kind, none => "tok(" ++ kind ++ ")"
  | none, some text => "tok(" ++ debugStr text ++ ")"
  | none, none => "tok(<any>)"

/-- `match_token_ref`. -/
def matchTokenRef (ctx : ParseCtx) (scope : Scope) (kind text : Option String) (pos : Nat) :
    Eval ParseOutcome := do
  let pos ← skipTrivia ctx scope pos
  match ctx.cfg.lexTokens with
  | none =>
    parseError ("tok() expression requires a token stream; attach one via " ++
      "ParseRequest::tokens() or ParseRequest::scan()") pos ctx.len none
  | some tokens =>
    -- `partition_point` on tokens that are in order
    match tokens.dropWhile fun token => token.start < pos with
    | token :: _ =>
      if token.start ≠ pos then failExpecting pos (formatTokLabel kind text)
      else if kind.any fun k => token.kind ≠ k then failExpecting pos (formatTokLabel kind text)
      else if text.any fun t => token.text ≠ t then failExpecting pos (formatTokLabel kind text)
      else pure (.success token.stop (.text token.text) false)
    | [] => failExpecting pos (formatTokLabel kind text)

end Caap.Peg
